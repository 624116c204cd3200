import PatternAutomata.Proofs.Store.Forms

/-! # Building a tree

Building the automaton of a tree cannot fail. It makes the fragment of the tree out of
new states, and leaves alone all that the store held before but for what the compiler
keeps count of (`Action.builds`). The parts share states with the whole and are
changed on the way, but every state that is changed was made on the way as well.
-/

namespace PatternAutomata

/-- What building a tree takes from a compiler: the next names, and the literals that
are noted. -/
def Compiler.spend (compiler : Compiler) (tree : Tree) : Compiler :=
  { compiler with
    names := compiler.names + tree.names
    literals := compiler.literals.insertAll (tree.literals.map String.singleton) }

theorem Compiler.spend_concat (first second : Tree) (compiler : Compiler) :
    (compiler.spend first).spend second = compiler.spend (.concat first second) := by
  simp only [spend, Tree.names, Tree.literals, List.map_append, StringSet.insertAll_append,
    Nat.add_assoc]

namespace Store

/-- An automaton holds a fragment, and it and its states were made since a base store,
which is kept. -/
structure Built (store base : Store) (automaton : AutomatonRef) (refs : List StateRef)
    (fragment : Fragment) : Prop where
  holds : store.Holds automaton refs fragment ∅
  kept : base.KeptIn store
  made : automaton ∉ base.automata
  refsMade : ∀ ref ∈ refs, ref ∉ base.states

namespace Built

variable {store base : Store} {automaton : AutomatonRef} {refs : List StateRef}
  {fragment : Fragment}

theorem onward (built : store.Built base automaton refs fragment) {later : Store}
    (kept : store.KeptIn later) : later.Built base automaton refs fragment where
  holds := built.holds.kept kept
  kept := built.kept.trans kept
  made := built.made
  refsMade := built.refsMade

theorem since (built : store.Built base automaton refs fragment) {earlier : Store}
    (kept : earlier.KeptIn base) : store.Built earlier automaton refs fragment where
  holds := built.holds
  kept := kept.trans built.kept
  made := fun held => built.made (kept.automata automaton held).1
  refsMade := fun ref member held => built.refsMade ref member (kept.states ref held).1

end Built

end Store

namespace Action

variable {store : Store} {compiler : CompilerRef} {first second : AutomatonRef}
  {firstRefs secondRefs : List StateRef} {left right : Fragment}

theorem run_freshName (store : Store) (compiler : CompilerRef) :
    (freshName compiler).run store =
      .ok (Nat.repr (store.compilers.get compiler).names)
        (store.changeCompiler compiler fun content =>
          { content with names := content.names + 1 }) :=
  rfl

/-- A character is noted as a literal, whether it was noted before or not. -/
theorem run_noteLiteral (store : Store) (compiler : CompilerRef) (character : Char) :
    (noteLiteral compiler (String.singleton character)).run store =
      .ok () (store.changeCompiler compiler fun content =>
        { content with literals := content.literals.insert (String.singleton character) }) := by
  rw [noteLiteral, run_bind_of_ok (run_compiler store compiler)]
  by_cases noted : String.singleton character ∈ (store.compilers.get compiler).literals
  · have same : (store.changeCompiler compiler fun content =>
        { content with literals := content.literals.insert (String.singleton character) }) =
          store := by
      rw [Store.changeCompiler, Heap.change_eq_self]
      rw [StringSet.insert_of_mem noted]
    rw [if_pos noted, same]
    rfl
  · have proper : (checkLetter (String.singleton character)).run store = .ok () store := by
      rw [run_checkLetter, if_neg (singleton_ne_epsilon character), run_checkSymbol,
        if_pos (isSymbol_singleton character)]
    rw [if_neg noted, run_bind_of_ok proper]
    rfl

theorem get_spent (held : compiler ∈ store.compilers) {after : Store}
    {update : Compiler → Compiler}
    (spent : after.compilers = store.compilers.change compiler update) :
    compiler ∈ after.compilers ∧
      after.compilers.get compiler = update (store.compilers.get compiler) := by
  rw [spent]
  exact ⟨Heap.mem_change.mpr held, Heap.get_change_self held update⟩

/-- A literal and an alternative begin alike: a new automaton gets a new start, which
takes the next name. -/
theorem run_begin (store : Store) (compiler : CompilerRef) :
    ∃ automaton start after,
      (∀ {α : Type} (next : AutomatonRef → StateRef → Action α),
        (do
          let automaton ← newAutomaton
          let start ← addStart automaton (← freshName compiler)
          next automaton start).run store = (next automaton start).run after) ∧
      after.Built store automaton [start]
        { start := (store.compilers.get compiler).names.repr
          states := [{ name := (store.compilers.get compiler).names.repr }] } ∧
      after.compilers = store.compilers.change compiler
        fun content => { content with names := content.names + 1 } := by
  let bare : Store := { store with automata := store.automata.add {} }
  let counted : Store := bare.changeCompiler compiler
    fun content => { content with names := content.names + 1 }
  have held : store.automata.fresh ∈ counted.automata := Heap.mem_add.mpr (Or.inr rfl)
  have empty : counted.automata.get store.automata.fresh = {} := Heap.get_add_fresh _ _
  have kept : store.KeptIn counted := ⟨.refl _, (Heap.KeptIn.refl _).add _, rfl⟩
  obtain ⟨after, added, holds, changes⟩ := run_addStart_new held empty
    (store.compilers.get compiler).names.repr
  refine ⟨store.automata.fresh, counted.states.fresh, after, fun next => ?_, ?_, changes.compilers⟩
  · rw [run_bind_of_ok (run_newAutomaton store {}), run_bind_of_ok (run_freshName bare compiler)]
    exact run_bind_of_ok added
  · have made : store.automata.fresh ∉ store.automata := store.automata.fresh_not_mem
    have startMade : store.states.fresh ∉ store.states := store.states.fresh_not_mem
    exact ⟨holds, kept.changesOnly changes nofun (List.forall_mem_singleton.mpr made), made,
      List.forall_mem_singleton.mpr startMade⟩

/-- A literal goes on with a second state, which accepts, and a transition to it. -/
theorem run_literal_rest {started : Store} {automaton : AutomatonRef} {start : StateRef}
    {first : Nat} (built : started.Built store automaton [start]
      { start := first.repr, states := [{ name := first.repr }] })
    (number : (started.compilers.get compiler).names = first + 1) (character : Char) :
    ∃ after refs,
      (do
        let accepting ← addAccepting automaton (← freshName compiler)
        connect (String.singleton character) start accepting
        return automaton : Action AutomatonRef).run started = .ok automaton after ∧
      after.Built store automaton refs (Fragment.literal first character) ∧
      after.compilers = started.compilers.change compiler
        fun content => { content with names := content.names + 1 } := by
  let counted : Store := started.changeCompiler compiler
    fun content => { content with names := content.names + 1 }
  have named : (freshName compiler).run started = .ok (first + 1).repr counted := by
    rw [run_freshName, number]
  have keptCounted : store.KeptIn counted := built.kept.changeCompiler compiler _
  have unused : (first + 1).repr ∉ [first.repr] := fun same =>
    Fragment.repr_ne_repr_succ first (List.mem_singleton.mp same).symm
  obtain ⟨added, ran, holdsAdded, changesAdded⟩ :=
    run_addState_holds (built.holds.changeCompiler compiler _)
      { name := (first + 1).repr, accepting := true } unused
  have accepting : (addAccepting automaton (first + 1).repr).run counted =
      .ok counted.states.fresh added := ran
  have keptAdded := keptCounted.changesOnly changesAdded nofun
    (List.forall_mem_singleton.mpr built.made)
  have holdsBoth : added.Holds automaton [start, counted.states.fresh]
      { start := first.repr
        states := [{ name := first.repr }, { name := (first + 1).repr, accepting := true }] } ∅ :=
    holdsAdded
  have target : (added.states.get counted.states.fresh).name = (first + 1).repr := by
    obtain ⟨_, later⟩ := List.cons.inj holdsBoth.states
    rw [(List.cons.inj later).1]
  obtain ⟨after, connected, holdsAfter, changesAfter⟩ :=
    run_connect_holds holdsBoth (isSymbol_singleton character) counted.states.fresh
  rw [target] at holdsAfter
  refine ⟨after, [start, counted.states.fresh], ?_, ⟨holdsAfter, ?_, built.made, ?_⟩, ?_⟩
  · rw [run_bind_of_ok named, run_bind_of_ok accepting, run_bind_of_ok connected]
    rfl
  · exact keptAdded.changesOnly changesAfter built.refsMade nofun
  · refine List.forall_mem_cons.mpr ⟨built.refsMade start (List.mem_singleton_self start), ?_⟩
    exact List.forall_mem_singleton.mpr keptCounted.states.fresh_not_mem
  · rw [changesAfter.compilers, changesAdded.compilers, Store.compilers_changeCompiler]

/-- A literal takes two new states. -/
theorem run_literal_built (held : compiler ∈ store.compilers) (character : Char) :
    ∃ automaton after refs,
      (literal compiler (String.singleton character)).run store = .ok automaton after ∧
      after.Built store automaton refs
        (Fragment.literal (store.compilers.get compiler).names character) ∧
      after.compilers = store.compilers.change compiler (·.spend (.literal character)) := by
  let noted : Store := store.changeCompiler compiler fun content =>
    { content with literals := content.literals.insert (String.singleton character) }
  have notedHeld : compiler ∈ noted.compilers := Heap.mem_change.mpr held
  have number : (noted.compilers.get compiler).names = (store.compilers.get compiler).names := by
    rw [Store.compilers_changeCompiler, Heap.get_change_self held]
  obtain ⟨automaton, start, started, begun, built, spent⟩ := run_begin noted compiler
  obtain ⟨_, content⟩ := get_spent notedHeld spent
  have nextNumber : (started.compilers.get compiler).names =
      (store.compilers.get compiler).names + 1 := by
    rw [content, ← number]
  rw [number] at built
  have kept : store.KeptIn noted := (Store.KeptIn.refl store).changeCompiler compiler _
  obtain ⟨after, refs, ran, builtAfter, counted⟩ :=
    run_literal_rest (built.since kept) nextNumber character
  refine ⟨automaton, after, refs, ?_, builtAfter, ?_⟩
  · rw [literal, run_bind_of_ok (run_noteLiteral store compiler character)]
    exact (begun _).trans ran
  · rw [counted, spent, Store.compilers_changeCompiler, Heap.change_change, Heap.change_change]
    rfl

/-- An alternative is held by a new automaton, which owns the states of both parts and
a new start; nothing that was there is changed. -/
theorem run_alternative_holds (compiler : CompilerRef)
    (bearsFirst : store.Bears first firstRefs left)
    (bearsSecond : store.Bears second secondRefs right)
    (leftStart : left.start ∈ left.names) (rightStart : right.start ∈ right.names)
    (disjoint : left.names.Disjoint right.names)
    (unused : (store.compilers.get compiler).names.repr ∉ left.names ++ right.names) :
    ∃ automaton after start, (alternative compiler first second).run store = .ok automaton after ∧
      after.Holds automaton (start :: (firstRefs ++ secondRefs))
        (Fragment.alt (store.compilers.get compiler).names left right) ∅ ∧
      store.KeptIn after ∧ automaton ∉ store.automata ∧ start ∉ store.states ∧
      after.compilers = store.compilers.change compiler
        fun content => { content with names := content.names + 1 } := by
  obtain ⟨automaton, start, started, begun, built, spent⟩ := run_begin store compiler
  generalize (store.compilers.get compiler).names = number at *
  have outside : ∀ ref ∈ [automaton], ref ∉ store.automata :=
    List.forall_mem_singleton.mpr built.made
  obtain ⟨freshLeft, freshRight⟩ := not_or.mp fun either => unused (List.mem_append.mpr either)
  have apartLeft : List.Disjoint [number.repr] left.names := List.singleton_disjoint.mpr freshLeft
  have apartRight : (number.repr :: left.names).Disjoint right.names :=
    List.disjoint_cons_left.mpr ⟨freshRight, disjoint⟩
  -- the new automaton owns the states of both parts behind its start
  obtain ⟨ownsLeft, adoptedLeft, holdsLeft, changesLeft⟩ :=
    run_adopt_holds built.holds (bearsFirst.kept built.kept) apartLeft
  have keptLeft := built.kept.changesOnly changesLeft nofun outside
  obtain ⟨ownsBoth, adoptedRight, holdsBoth, changesBoth⟩ :=
    run_adopt_holds holdsLeft (bearsSecond.kept keptLeft) apartRight
  have keptBoth := keptLeft.changesOnly changesBoth nofun outside
  have holdsBare : ownsBoth.Holds automaton (start :: (firstRefs ++ secondRefs))
      { start := number.repr
        states := { name := number.repr } :: (left.states ++ right.states) } ∅ := holdsBoth
  -- and its start leads on to theirs
  have startApart : start ∉ secondRefs := fun member =>
    (List.nodup_cons.mp holdsBare.distinct).1 (List.mem_append_right firstRefs member)
  obtain ⟨after, connected, holdsAfter, changesAfter⟩ :=
    run_fork_holds holdsBare (bearsFirst.kept keptBoth) (bearsSecond.kept keptBoth) leftStart
      rightStart startApart
  refine ⟨automaton, after, start, ?_, holdsAfter,
    keptBoth.changesOnly changesAfter built.refsMade nofun, built.made,
    built.refsMade start (List.mem_singleton_self start), ?_⟩
  · rw [alternative]
    refine (begun _).trans ?_
    rw [run_bind_of_ok (run_ownedBy started first), (bearsFirst.kept built.kept).ownedValues,
      run_bind_of_ok adoptedLeft, run_bind_of_ok (run_ownedBy ownsLeft second),
      (bearsSecond.kept keptLeft).ownedValues, run_bind_of_ok adoptedRight]
    exact connected _
  · rw [changesAfter.compilers, changesBoth.compilers, changesLeft.compilers]
    exact spent

/-- Building a tree makes its fragment, numbered on from the names given out before, out
of new states, and changes nothing that was there but the compiler. -/
def Builds (compiler : CompilerRef) (tree : Tree) : Prop :=
  ∀ store : Store, compiler ∈ store.compilers →
    ∃ automaton after refs, (build compiler tree).run store = .ok automaton after ∧
      after.Built store automaton refs (tree.fragment (store.compilers.get compiler).names) ∧
      after.compilers = store.compilers.change compiler (·.spend tree)

/-- Two trees are built one after another, and the first stays as it was built. -/
theorem Builds.both {left right : Tree} (leftBuilds : Builds compiler left)
    (rightBuilds : Builds compiler right) (held : compiler ∈ store.compilers) :
    ∃ first second after firstRefs secondRefs,
      (∀ {α : Type} (next : AutomatonRef → AutomatonRef → Action α),
        (do
          let first ← build compiler left
          let second ← build compiler right
          next first second).run store = (next first second).run after) ∧
      after.Built store first firstRefs
        (left.fragment (store.compilers.get compiler).names) ∧
      after.Built store second secondRefs
        (right.fragment ((store.compilers.get compiler).names + left.names)) ∧
      after.compilers = store.compilers.change compiler (·.spend (.concat left right)) := by
  obtain ⟨first, middle, firstRefs, ranFirst, builtFirst, spentFirst⟩ := leftBuilds store held
  have ⟨middleHeld, content⟩ := get_spent held spentFirst
  obtain ⟨second, after, secondRefs, ranSecond, builtSecond, spentSecond⟩ :=
    rightBuilds middle middleHeld
  have number : (middle.compilers.get compiler).names =
      (store.compilers.get compiler).names + left.names := by
    rw [content, Compiler.spend]
  rw [number] at builtSecond
  refine ⟨first, second, after, firstRefs, secondRefs, fun next => ?_,
    builtFirst.onward builtSecond.kept, builtSecond.since builtFirst.kept, ?_⟩
  · exact (run_bind_of_ok ranFirst).trans (run_bind_of_ok ranSecond)
  · rw [spentSecond, spentFirst, Heap.change_change]
    simp only [Compiler.spend_concat]

theorem Builds.star {inner : Tree} (builds : Builds compiler inner) :
    Builds compiler (.star inner) := by
  intro store held
  obtain ⟨automaton, middle, refs, ran, built, spent⟩ := builds store held
  have proper := inner.proper_fragment (store.compilers.get compiler).names
  obtain ⟨after, repeated, holds, changes⟩ :=
    run_repetition_holds built.holds proper.start
  refine ⟨automaton, after, refs, ?_, ⟨holds, ?_, built.made, built.refsMade⟩, ?_⟩
  · exact (run_bind_of_ok ran).trans repeated
  · exact built.kept.changesOnly changes built.refsMade nofun
  · exact changes.compilers.trans spent

theorem Builds.concat {left right : Tree} (leftBuilds : Builds compiler left)
    (rightBuilds : Builds compiler right) : Builds compiler (.concat left right) := by
  intro store held
  obtain ⟨first, second, middle, firstRefs, secondRefs, ran, builtFirst, builtSecond, spent⟩ :=
    leftBuilds.both rightBuilds held
  have leftProper := left.proper_fragment (store.compilers.get compiler).names
  have rightProper := right.proper_fragment ((store.compilers.get compiler).names + left.names)
  obtain ⟨after, appended, holds, changes⟩ :=
    run_append_holds builtFirst.holds.toBears builtFirst.holds.marks builtSecond.holds.toBears
      leftProper.start rightProper.start (Tree.disjoint_names_fragment left right le_rfl)
  rw [builtFirst.holds.alphabet] at holds
  refine ⟨first, after, firstRefs ++ secondRefs, ?_, ⟨holds, ?_, builtFirst.made, ?_⟩, ?_⟩
  · exact (ran _).trans (run_bind_of_ok appended)
  · exact builtFirst.kept.changesOnly changes builtFirst.refsMade
      (List.forall_mem_singleton.mpr builtFirst.made)
  · exact List.forall_mem_append.mpr ⟨builtFirst.refsMade, builtSecond.refsMade⟩
  · exact changes.compilers.trans spent

theorem Builds.alt {left right : Tree} (leftBuilds : Builds compiler left)
    (rightBuilds : Builds compiler right) : Builds compiler (.alt left right) := by
  intro store held
  obtain ⟨first, second, middle, firstRefs, secondRefs, ran, builtFirst, builtSecond, spent⟩ :=
    leftBuilds.both rightBuilds held
  have ⟨_, content⟩ := get_spent held spent
  have number : (middle.compilers.get compiler).names =
      (store.compilers.get compiler).names + left.names + right.names := by
    rw [content, Compiler.spend, Tree.names, Nat.add_assoc]
  have leftProper := left.proper_fragment (store.compilers.get compiler).names
  have rightProper := right.proper_fragment ((store.compilers.get compiler).names + left.names)
  have unused : (middle.compilers.get compiler).names.repr ∉
      (left.fragment (store.compilers.get compiler).names).names ++
        (right.fragment ((store.compilers.get compiler).names + left.names)).names := by
    rw [number, List.mem_append, not_or]
    exact ⟨Tree.repr_not_mem_names_fragment (Or.inr (by omega)),
      Tree.repr_not_mem_names_fragment (Or.inr le_rfl)⟩
  obtain ⟨automaton, after, start, joined, holds, kept, made, startMade, counted⟩ :=
    run_alternative_holds compiler builtFirst.holds.toBears builtSecond.holds.toBears
      leftProper.start rightProper.start (Tree.disjoint_names_fragment left right le_rfl) unused
  rw [number] at holds
  refine ⟨automaton, after, start :: (firstRefs ++ secondRefs), (ran _).trans joined,
    ⟨holds, builtFirst.kept.trans kept, ?_, ?_⟩, ?_⟩
  · exact fun member => made (builtFirst.kept.automata automaton member).1
  · exact List.forall_mem_cons.mpr
      ⟨fun member => startMade (builtFirst.kept.states start member).1,
        List.forall_mem_append.mpr ⟨builtFirst.refsMade, builtSecond.refsMade⟩⟩
  · rw [counted, spent, Heap.change_change]
    rfl

/-- **Building cannot fail**, and makes the fragment of the tree. -/
theorem builds (compiler : CompilerRef) (tree : Tree) : Builds compiler tree := by
  induction tree with
  | literal character => exact fun _ held => run_literal_built held character
  | escaped character => exact fun _ held => run_literal_built held character
  | group _ ih => exact ih
  | star _ ih => exact ih.star
  | concat _ _ leftIH rightIH => exact leftIH.concat rightIH
  | alt _ _ leftIH rightIH => exact leftIH.alt rightIH

end Action

end PatternAutomata
