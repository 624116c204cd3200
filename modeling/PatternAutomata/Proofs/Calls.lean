import PatternAutomata.Proofs.Naming
import PatternAutomata.Proofs.Store.Descent

/-! # Calls of compilers

What a call of a compiler comes to can be told from the compiler alone (`Call.outcome`):
nothing else in the store has a part in it, and of what was in the store nothing else is
changed (`Call.ends_ask`). So the calls of several compilers may be interleaved in any way:
each compiler answers as if it were called alone (`Store.seen_answers`).
-/

namespace PatternAutomata

/-- What can be asked of a compiler: a part of what lies ahead of it, or all of it. -/
inductive Call
  /-- One part, read first and built then. -/
  | parse (rule : Rule)
  /-- All that lies ahead, read first and built then. -/
  | compile
  /-- One part, built while it is read. -/
  | parseAlong (rule : Rule)
  /-- All that lies ahead, built while it is read. -/
  | compileAlong
deriving DecidableEq

namespace Call

/-- The action of a call. -/
def action (compiler : CompilerRef) : Call → Action AutomatonRef
  | parse rule => Action.parse compiler rule
  | compile => Action.compile compiler
  | parseAlong rule => Descent.part compiler rule
  | compileAlong => Descent.compile compiler

/-- The tree that a call reads off what lies ahead. -/
def read : Call → List Char → Except Failure Tree
  | parse rule, ahead => (rule.read ahead).map Prod.fst
  | compile, ahead => readPattern ahead
  | parseAlong rule, ahead => (rule.read ahead).map Prod.fst
  | compileAlong, ahead => readPattern ahead

/-- What a call makes of the compiler before it reads: compiling clears the literals. -/
def prepare : Call → Compiler → Compiler
  | parse _, compiler => compiler
  | compile, compiler => { compiler with literals := ∅ }
  | parseAlong _, compiler => compiler
  | compileAlong, compiler => { compiler with literals := ∅ }

/-- The alphabet of the automaton of a tree: only compiling gives it one. -/
def alphabet : Call → Tree → StringSet
  | parse _, _ => ∅
  | compile, tree => tree.alphabet
  | parseAlong _, _ => ∅
  | compileAlong, tree => tree.alphabet

/-- The fault that a call makes of a complaint: only compiling reports a refusal. -/
def fault : Call → Complaint → (position : Nat) → (ahead : List Char) → Fault
  | parse _, complaint => complaint.fault
  | compile, complaint => complaint.report
  | parseAlong _, complaint => complaint.fault
  | compileAlong, complaint => complaint.report

/-- What a call comes to: the value of the automaton or the fault, and the compiler
afterwards. -/
def outcome (call : Call) (compiler : Compiler) : Except Fault Machine × Compiler :=
  match call.read compiler.ahead with
  | .ok tree =>
      (.ok ((tree.fragment compiler.names).machine (call.alphabet tree)),
        (call.prepare compiler).take tree)
  | .error failure =>
      let left := (call.prepare compiler).leave failure
      (.error (call.fault failure.complaint left.cursor left.ahead), left)

@[simp] theorem pattern_prepare (call : Call) (compiler : Compiler) :
    (call.prepare compiler).pattern = compiler.pattern := by
  cases call <;> rfl

/-- No call changes the pattern. -/
theorem pattern_outcome (call : Call) (compiler : Compiler) :
    (call.outcome compiler).2.pattern = compiler.pattern := by
  unfold outcome
  split
  · exact call.pattern_prepare compiler
  · exact call.pattern_prepare compiler

end Call

/-- Makes a call: the automaton or the fault, and the store afterwards. -/
def Store.ask (store : Store) (compiler : CompilerRef) (call : Call) :
    Except Fault AutomatonRef × Store :=
  match (call.action compiler).run store with
  | .ok automaton after => (.ok automaton, after)
  | .error fault after => (.error fault, after)

namespace Call

variable {store after : Store} {compiler : CompilerRef} {call : Call} {tree : Tree}
  {failure : Failure}

/-- How a call ends: as the compiler alone lets tell, with all kept that was there but the
compiler, and with an automaton, if any, that is new and owns new states only. -/
structure Ends (call : Call) (store : Store) (compiler : CompilerRef)
    (result : Except Fault AutomatonRef) (after : Store) : Prop where
  value : result.map after.machine = (call.outcome (store.compilers.get compiler)).1
  kept : store.KeptIn after
  compilers : after.compilers =
    store.compilers.change compiler fun content => (call.outcome content).2
  made : ∀ automaton, result = .ok automaton →
    automaton ∈ after.automata ∧ automaton ∉ store.automata ∧
      ∀ ref ∈ (after.automata.get automaton).owned.values, ref ∈ after.states ∧ ref ∉ store.states

/-- A call that reads a tree ends with an automaton that holds its fragment in new states. -/
theorem Ends.ofHolds {automaton : AutomatonRef} {refs : List StateRef}
    (given : call.read (store.compilers.get compiler).ahead = .ok tree)
    (holds : after.Holds automaton refs (tree.fragment (store.compilers.get compiler).names)
      (call.alphabet tree))
    (kept : store.KeptIn after) (made : automaton ∉ store.automata)
    (refsMade : ∀ ref ∈ refs, ref ∉ store.states)
    (taken : after.compilers =
      store.compilers.change compiler fun content => (call.prepare content).take tree) :
    call.Ends store compiler (.ok automaton) after := by
  have outcome : call.outcome (store.compilers.get compiler) =
      (.ok ((tree.fragment (store.compilers.get compiler).names).machine (call.alphabet tree)),
        (call.prepare (store.compilers.get compiler)).take tree) := by
    simp only [Call.outcome, given]
  refine ⟨?_, kept, ?_, fun other same => ?_⟩
  · rw [outcome, ← holds.machine_eq (tree.nodup_names_fragment _)]
    rfl
  · rw [taken]
    exact Heap.change_congr (congrArg Prod.snd outcome).symm
  · cases same
    rw [holds.ownedValues]
    exact ⟨holds.held, made, fun ref member => ⟨holds.refsHeld ref member, refsMade ref member⟩⟩

/-- A call that cannot read ends with the complaint, and the compiler is left at its place. -/
theorem Ends.ofFailure (held : compiler ∈ store.compilers)
    (given : call.read (store.compilers.get compiler).ahead = .error failure)
    (kept : store.KeptIn after)
    (left : after.compilers =
      store.compilers.change compiler fun content => (call.prepare content).leave failure) :
    call.Ends store compiler (.error (call.fault failure.complaint
      (after.compilers.get compiler).cursor (after.compilers.get compiler).ahead)) after := by
  have content : after.compilers.get compiler =
      (call.prepare (store.compilers.get compiler)).leave failure :=
    (Action.get_spent held left).2
  have outcome : call.outcome (store.compilers.get compiler) =
      (.error (call.fault failure.complaint (after.compilers.get compiler).cursor
        (after.compilers.get compiler).ahead), after.compilers.get compiler) := by
    simp only [Call.outcome, given, content]
  refine ⟨?_, kept, ?_, fun other same => nomatch same⟩
  · rw [outcome]
    rfl
  · rw [left]
    refine Heap.change_congr ?_
    rw [outcome]
    exact content.symm

/-- How a call ends is told from its run. -/
def EndsAs (call : Call) (store : Store) (compiler : CompilerRef) :
    EStateM.Result Fault Store AutomatonRef → Prop
  | .ok automaton after => call.Ends store compiler (.ok automaton) after
  | .error fault after => call.Ends store compiler (.error fault) after

theorem endsAs_parse (held : compiler ∈ store.compilers) (rule : Rule) :
    (parse rule).EndsAs store compiler ((Action.parse compiler rule).run store) := by
  rw [Action.run_parse]
  cases read : rule.read (store.compilers.get compiler).ahead with
  | ok value =>
      obtain ⟨tree, rest⟩ := value
      have given : (parse rule).read (store.compilers.get compiler).ahead = .ok tree := by
        rw [Call.read, read]
        rfl
      have advanced : store.KeptIn (store.move compiler tree.text.length) :=
        (Store.KeptIn.refl store).changeCompiler compiler _
      obtain ⟨automaton, after, refs, ran, built, spent⟩ :=
        Action.builds compiler tree (store.move compiler tree.text.length)
          (Heap.mem_change.mpr held)
      have since := built.since advanced
      rw [Store.names_move] at since
      change (parse rule).EndsAs store compiler ((Action.take compiler tree).run store)
      rw [Action.run_take, ran]
      refine Ends.ofHolds given since.holds since.kept since.made since.refsMade ?_
      rw [spent, Store.move, Store.compilers_changeCompiler, Heap.change_change]
      rfl
  | error failure =>
      have given : (parse rule).read (store.compilers.get compiler).ahead = .error failure := by
        rw [Call.read, read]
        rfl
      change (parse rule).EndsAs store compiler ((Action.abandon compiler failure).run store)
      rw [Action.run_abandon_eq held, ← Heap.get_change_self held (·.leave failure)]
      exact Ends.ofFailure held given ((Store.KeptIn.refl store).changeCompiler compiler _) rfl

theorem endsAs_compile (held : compiler ∈ store.compilers) :
    compile.EndsAs store compiler ((Action.compile compiler).run store) := by
  cases read : readPattern (store.compilers.get compiler).ahead with
  | ok tree =>
      obtain ⟨automaton, after, refs, ran, holds, kept, made, refsMade, finished⟩ :=
        Action.run_compile_of_ok held read
      rw [ran]
      refine Ends.ofHolds read holds kept made refsMade ?_
      rw [finished]
      refine Heap.change_congr ?_
      rw [Compiler.finish, ← text_of_readPattern read]
      rfl
  | error failure =>
      let update := fun content : Compiler =>
        ({ content with literals := ∅ } : Compiler).leave failure
      rw [Action.run_compile_of_failure held read]
      let after := store.changeCompiler compiler update
      have kept : store.KeptIn after := (Store.KeptIn.refl store).changeCompiler compiler update
      have ends : compile.Ends store compiler (.error (failure.complaint.report
          (after.compilers.get compiler).cursor (after.compilers.get compiler).ahead)) after :=
        .ofFailure held read kept rfl
      have content : after.compilers.get compiler = update (store.compilers.get compiler) :=
        Heap.get_change_self held update
      rw [content] at ends
      exact ends

/-- What ends in the same way for the one who asks. -/
theorem EndsAs.of_agree {along : Call}
    {first second : EStateM.Result Fault Store AutomatonRef}
    (ends : call.EndsAs store compiler second) (same : along.outcome = call.outcome)
    (agree : Descent.Agree store first second) : along.EndsAs store compiler first := by
  cases second with
  | ok automaton after =>
      cases first with
      | error fault later => exact agree.elim
      | ok other later =>
          obtain ⟨rfl, rfl⟩ := agree
          exact ⟨same ▸ ends.value, ends.kept, same ▸ ends.compilers, ends.made⟩
  | error fault after =>
      cases first with
      | ok other later => exact agree.elim
      | error other later =>
          obtain ⟨rfl, compilers, kept, _⟩ := agree
          refine ⟨same ▸ ends.value, kept, ?_, nofun⟩
          rw [compilers, same]
          exact ends.compilers

/-- **What a call comes to** is told from the compiler alone, and nothing else that was there
is changed. -/
theorem ends_ask (held : compiler ∈ store.compilers) (call : Call) :
    call.Ends store compiler (store.ask compiler call).1 (store.ask compiler call).2 := by
  have ends : call.EndsAs store compiler ((call.action compiler).run store) := by
    cases call with
    | parse rule => exact endsAs_parse held rule
    | compile => exact endsAs_compile held
    | parseAlong rule =>
        exact (endsAs_parse held rule).of_agree rfl (Descent.part_agrees held rule)
    | compileAlong => exact (endsAs_compile held).of_agree rfl (Descent.compile_agrees held)
  unfold Store.ask
  cases ran : (call.action compiler).run store with
  | ok automaton after =>
      rw [ran] at ends
      exact ends
  | error fault after =>
      rw [ran] at ends
      exact ends

end Call

/-- An automaton keeps its value where all is kept that was there, and it owns nothing else. -/
theorem Store.KeptIn.machine_eq {store later : Store} (kept : store.KeptIn later)
    {automaton : AutomatonRef} (held : automaton ∈ store.automata)
    (owned : ∀ ref ∈ (store.automata.get automaton).owned.values, ref ∈ store.states) :
    later.machine automaton = store.machine automaton := by
  have content := (kept.automata automaton held).2
  have values : (store.automata.get automaton).owned.map later.states.get =
      (store.automata.get automaton).owned.map store.states.get := by
    apply Table.ext
    refine List.map_congr_left fun entry member => ?_
    have same := (kept.states entry.2 (owned entry.2 (List.mem_map_of_mem member))).2
    rw [same]
  rw [Store.machine, Store.machine, content, values]

/-- What is seen of a call when it is over. -/
structure Answer where
  /-- The compiler that was called. -/
  compiler : CompilerRef
  /-- The automaton that was given, or the fault. -/
  result : Except Fault AutomatonRef
  /-- The value of the automaton by then, or the fault. -/
  value : Except Fault Machine
  /-- What the compiler is left as. -/
  left : Compiler

/-- What an answer shows of a compiler, whatever else is in the store. -/
def Answer.seen (answer : Answer) : Except Fault Machine × Compiler :=
  (answer.value, answer.left)

/-- What calls come to, one after another, on a compiler of its own. -/
def Call.outcomes : List Call → Compiler → List (Except Fault Machine × Compiler)
  | [], _ => []
  | call :: calls, compiler =>
      call.outcome compiler :: outcomes calls (call.outcome compiler).2

namespace Store

/-- What is seen of a call on a store. -/
def answer (store : Store) (compiler : CompilerRef) (call : Call) : Answer where
  compiler := compiler
  result := (store.ask compiler call).1
  value := (store.ask compiler call).1.map (store.ask compiler call).2.machine
  left := (store.ask compiler call).2.compilers.get compiler

@[simp] theorem compiler_answer (store : Store) (compiler : CompilerRef) (call : Call) :
    (store.answer compiler call).compiler = compiler := rfl

/-- What is seen of calls that are made one after another. -/
def answers : Store → List (CompilerRef × Call) → List Answer
  | _, [] => []
  | store, (compiler, call) :: calls =>
      store.answer compiler call :: (store.ask compiler call).2.answers calls

/-- The store behind calls that are made one after another. -/
def askAll : Store → List (CompilerRef × Call) → Store
  | store, [] => store
  | store, (compiler, call) :: calls => (store.ask compiler call).2.askAll calls

/-- What a call on a compiler leaves as it was: all that was there but the compiler, of which
it leaves the pattern. -/
structure Spares (store after : Store) (compiler : CompilerRef) : Prop where
  states : store.states.KeptIn after.states
  automata : store.automata.KeptIn after.automata
  counters : after.counters = store.counters
  compilers : store.compilers.ChangesOnly after.compilers [compiler]
  pattern : (after.compilers.get compiler).pattern = (store.compilers.get compiler).pattern

variable {store : Store} {compiler other : CompilerRef} {call : Call}

theorem spares_ask (held : compiler ∈ store.compilers) (call : Call) :
    store.Spares (store.ask compiler call).2 compiler := by
  have ends := call.ends_ask held
  refine ⟨ends.kept.states, ends.kept.automata, ends.kept.counters, ?_, ?_⟩
  · rw [ends.compilers]
    exact Heap.changesOnly_change _ _ _
  · rw [(Action.get_spent held ends.compilers).2]
    exact call.pattern_outcome _

/-- What is seen of a call is its outcome. -/
theorem seen_answer (held : compiler ∈ store.compilers) (call : Call) :
    (store.answer compiler call).seen = call.outcome (store.compilers.get compiler) := by
  have ends := call.ends_ask held
  exact Prod.ext ends.value (Action.get_spent held ends.compilers).2

theorem held_ask (held : compiler ∈ store.compilers) (call : Call)
    (heldOther : other ∈ store.compilers) : other ∈ (store.ask compiler call).2.compilers :=
  ((spares_ask held call).compilers other heldOther).1

/-- A call is nothing to another compiler. -/
theorem get_ask_of_ne (held : compiler ∈ store.compilers) (call : Call)
    (heldOther : other ∈ store.compilers) (apart : other ≠ compiler) :
    (store.ask compiler call).2.compilers.get other = store.compilers.get other :=
  ((spares_ask held call).compilers other heldOther).2 fun member =>
    apart (List.mem_singleton.mp member)

variable {calls : List (CompilerRef × Call)}

/-- **Each compiler answers as if it were alone.** -/
theorem seen_answers (held : ∀ entry ∈ calls, entry.1 ∈ store.compilers)
    (heldOwn : compiler ∈ store.compilers) :
    ((store.answers calls).filter (·.compiler = compiler)).map Answer.seen =
      Call.outcomes ((calls.filter (·.1 = compiler)).map Prod.snd)
        (store.compilers.get compiler) := by
  induction calls generalizing store with
  | nil => rfl
  | cons entry calls ih =>
      obtain ⟨called, call⟩ := entry
      obtain ⟨heldCalled, heldRest⟩ := List.forall_mem_cons.mp held
      have rest := ih (fun entry member => held_ask heldCalled call (heldRest entry member))
        (held_ask heldCalled call heldOwn)
      by_cases own : called = compiler
      · subst own
        have seen := seen_answer heldCalled call
        have left : (store.ask called call).2.compilers.get called =
            (call.outcome (store.compilers.get called)).2 := congrArg Prod.snd seen
        rw [left] at rest
        simp only [answers, compiler_answer, List.filter_cons, decide_true, ↓reduceIte,
          List.map_cons, seen, rest, Call.outcomes]
      · rw [get_ask_of_ne heldCalled call heldOwn (Ne.symm own)] at rest
        simp only [answers, compiler_answer, List.filter_cons, own, decide_false,
          Bool.false_eq_true, ↓reduceIte, rest]

theorem compiler_of_mem_answers {answer : Answer} (member : answer ∈ store.answers calls) :
    ∃ entry ∈ calls, answer.compiler = entry.1 := by
  induction calls generalizing store with
  | nil => exact nomatch member
  | cons entry calls ih =>
      rcases List.mem_cons.mp member with rfl | later
      · exact ⟨entry, List.mem_cons_self, rfl⟩
      · obtain ⟨other, inside, same⟩ := ih later
        exact ⟨other, List.mem_cons_of_mem _ inside, same⟩

/-- The compiler behind the calls is what its own calls make of it. -/
theorem get_askAll (held : ∀ entry ∈ calls, entry.1 ∈ store.compilers)
    (heldOwn : compiler ∈ store.compilers) :
    (store.askAll calls).compilers.get compiler =
      ((calls.filter (·.1 = compiler)).map Prod.snd).foldl
        (fun content call => (call.outcome content).2) (store.compilers.get compiler) := by
  induction calls generalizing store with
  | nil => rfl
  | cons entry calls ih =>
      obtain ⟨called, call⟩ := entry
      obtain ⟨heldCalled, heldRest⟩ := List.forall_mem_cons.mp held
      have rest := ih (fun entry member => held_ask heldCalled call (heldRest entry member))
        (held_ask heldCalled call heldOwn)
      by_cases own : called = compiler
      · subst own
        have left : (store.ask called call).2.compilers.get called =
            (call.outcome (store.compilers.get called)).2 :=
          congrArg Prod.snd (seen_answer heldCalled call)
        rw [left] at rest
        simp only [askAll, rest, List.filter_cons, decide_true, ↓reduceIte, List.map_cons,
          List.foldl_cons]
      · rw [get_ask_of_ne heldCalled call heldOwn (Ne.symm own)] at rest
        simp only [askAll, rest, List.filter_cons, own, decide_false, Bool.false_eq_true,
          ↓reduceIte]

theorem keptIn_askAll (held : ∀ entry ∈ calls, entry.1 ∈ store.compilers) :
    store.KeptIn (store.askAll calls) := by
  induction calls generalizing store with
  | nil => exact .refl store
  | cons entry calls ih =>
      obtain ⟨heldCalled, heldRest⟩ := List.forall_mem_cons.mp held
      exact (entry.2.ends_ask heldCalled).kept.trans
        (ih fun other member => held_ask heldCalled entry.2 (heldRest other member))

/-- The automata that were given keep their values behind all later calls. -/
theorem value_answers (held : ∀ entry ∈ calls, entry.1 ∈ store.compilers) :
    ∀ answer ∈ store.answers calls, ∀ automaton, answer.result = .ok automaton →
      answer.value = .ok ((store.askAll calls).machine automaton) := by
  induction calls generalizing store with
  | nil => exact fun answer member => nomatch member
  | cons entry calls ih =>
      obtain ⟨called, call⟩ := entry
      obtain ⟨heldCalled, heldRest⟩ := List.forall_mem_cons.mp held
      have heldLater : ∀ entry ∈ calls, entry.1 ∈ (store.ask called call).2.compilers :=
        fun entry member => held_ask heldCalled call (heldRest entry member)
      refine List.forall_mem_cons.mpr ⟨fun automaton given => ?_, ih heldLater⟩
      obtain ⟨made, _, owned⟩ := (call.ends_ask heldCalled).made automaton given
      have same := (keptIn_askAll heldLater).machine_eq made fun ref member => (owned ref member).1
      rw [askAll, same]
      change Except.map _ _ = _
      rw [show (store.ask called call).1 = .ok automaton from given]
      rfl

/-- **Calls do not interfere.** Whether a call succeeds or fails, it changes nothing that was
there but the cursor, the count of names and the literals of its compiler, and an automaton
that it gives is new, as are all of its states. So calls of several compilers may be
interleaved in any way: each compiler answers, and is left, as if its own calls were the only
ones, and every automaton keeps the value that it was given with. -/
theorem calls_apart (store : Store) :
    (∀ compiler ∈ store.compilers, ∀ call : Call,
        store.Spares (store.ask compiler call).2 compiler ∧
          ∀ automaton, (store.ask compiler call).1 = .ok automaton →
            automaton ∉ store.automata ∧
              ∀ ref ∈ ((store.ask compiler call).2.automata.get automaton).owned.values,
                ref ∈ (store.ask compiler call).2.states ∧ ref ∉ store.states) ∧
      ∀ calls : List (CompilerRef × Call), (∀ entry ∈ calls, entry.1 ∈ store.compilers) →
        (∀ answer ∈ store.answers calls, ∀ automaton, answer.result = .ok automaton →
            answer.value = .ok ((store.askAll calls).machine automaton)) ∧
          ∀ compiler ∈ store.compilers,
            ((store.answers calls).filter (·.compiler = compiler)).map Answer.seen =
                (store.answers (calls.filter (·.1 = compiler))).map Answer.seen ∧
              (store.askAll calls).compilers.get compiler =
                (store.askAll (calls.filter (·.1 = compiler))).compilers.get compiler := by
  refine ⟨fun compiler held call => ⟨spares_ask held call, fun automaton given => ?_⟩,
    fun calls held => ⟨value_answers held, fun compiler heldOwn => ?_⟩⟩
  · exact ((call.ends_ask held).made automaton given).2
  · have heldAlone : ∀ entry ∈ calls.filter (·.1 = compiler), entry.1 ∈ store.compilers :=
      fun entry member => held entry (List.mem_filter.mp member).1
    -- alone, every answer is one of the compiler
    have alone : (store.answers (calls.filter (·.1 = compiler))).filter (·.compiler = compiler) =
        store.answers (calls.filter (·.1 = compiler)) := by
      refine List.filter_eq_self.mpr fun answer member => ?_
      obtain ⟨entry, inside, same⟩ := compiler_of_mem_answers member
      rw [same]
      exact (List.mem_filter.mp inside).2
    constructor
    · rw [seen_answers held heldOwn, ← alone, seen_answers heldAlone heldOwn, List.filter_filter]
      simp only [Bool.and_self]
    · rw [get_askAll held heldOwn, get_askAll heldAlone heldOwn, List.filter_filter]
      simp only [Bool.and_self]

/-- Two compilers take turns: one takes a letter and fails at the bar behind it, the other
compiles a pattern of its own in between. -/
theorem calls_apart_two_compilers :
    let store : Store := { compilers :=
      (({} : Heap Compiler).add { pattern := ['a', '|'] }).add { pattern := ['b', '*'] } }
    let calls : List (CompilerRef × Call) :=
      [(⟨0⟩, .parse .term), (⟨1⟩, .compile), (⟨0⟩, .compileAlong)]
    (∀ entry ∈ calls, entry.1 ∈ store.compilers) ∧ (⟨0⟩ : CompilerRef) ∈ store.compilers ∧
      ((store.answers calls).filter (·.compiler = ⟨0⟩)).map Answer.seen =
        (store.answers [(⟨0⟩, .parse .term), (⟨0⟩, .compileAlong)]).map Answer.seen ∧
      store.Spares (store.ask ⟨0⟩ .compileAlong).2 ⟨0⟩ := by
  intro store calls
  have held : ∀ entry ∈ calls, entry.1 ∈ store.compilers := by decide
  have own : (⟨0⟩ : CompilerRef) ∈ store.compilers := by decide
  have apart := store.calls_apart
  exact ⟨held, own, ((apart.2 calls held).2 ⟨0⟩ own).1, (apart.1 ⟨0⟩ own .compileAlong).1⟩

end Store

end PatternAutomata
