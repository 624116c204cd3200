import PatternAutomata.Proofs.Store.Asking
import PatternAutomata.Proofs.Store.Edits

/-! # Actions as elementary changes

Every action, whether it fails or not, comes down to elementary changes (`Action.Leads`): this
goes from an action to those that it is made of. Only adopting puts references into an
automaton that come from elsewhere, so only there must they be held by the store; those that
another automaton owns are held in a closed store.
-/

namespace PatternAutomata

theorem Store.Closed.held_of_owned {store : Store} (closed : store.Closed)
    {automaton : AutomatonRef} {ref : StateRef}
    (owned : ref ∈ (store.automata.get automaton).owned.values) : ref ∈ store.states := by
  obtain ⟨entry, member, rfl⟩ := List.mem_map.mp owned
  exact closed automaton entry member

namespace Action

variable {α β : Type}

/-- An action that makes elementary changes only, whether it fails or not. -/
def Leads (store : Store) (action : Action α) : Prop :=
  store.Edits (ending action store)

section Composition

variable {store : Store} {action : Action α} {next : α → Action β}

theorem Reads.leads (reads : Reads action) (store : Store) : Leads store action := by
  rw [Leads, reads store]
  exact Store.Edits.refl store

theorem leads_pure (value : α) : Leads store (pure value : Action α) :=
  Store.Edits.refl store

theorem Leads.bind (leads : Leads store action)
    (later : ∀ value after, store.Edits after → Leads after (next value)) :
    Leads store (action >>= next) := by
  cases ran : action.run store with
  | ok value after =>
      have edits : store.Edits after := ending_of_ok ran ▸ leads
      rw [Leads, ending_bind_of_ok ran]
      exact edits.trans (later value after edits)
  | error fault after =>
      rw [Leads, ending_bind_of_error ran]
      exact ending_of_error ran ▸ leads

theorem leads_reporting (leads : Leads store action) (compiler : CompilerRef) :
    Leads store (reporting compiler action) := by
  cases ran : action.run store with
  | ok value after =>
      rw [Leads, ending_of_ok (run_reporting_of_ok ran)]
      exact ending_of_ok ran ▸ leads
  | error fault after =>
      rw [Leads, ending_of_error (run_reporting_of_error ran)]
      exact ending_of_error ran ▸ leads

/-- What an action returns once it has only asked is known. -/
theorem Leads.of_ask {value : α} (ran : action.run store = .ok value store)
    (leads : Leads store (next value)) : Leads store (action >>= next) := by
  rw [Leads, ending_bind_of_ok ran]
  exact leads

theorem Leads.forM {body : α → Action Unit} {items : List α}
    (leads : ∀ item ∈ items, ∀ after, store.Edits after → Leads after (body item)) :
    Leads store (items.forM body) := by
  induction items generalizing store with
  | nil => exact leads_pure ()
  | cons item items ih =>
      have ⟨first, rest⟩ := List.forall_mem_cons.mp leads
      refine (first store (.refl store)).bind fun _ after edits => ih fun other member => ?_
      exact fun last later => rest other member last (edits.trans later)

theorem leads_modify {update : Store → Store} (edit : store.Edit (update store)) :
    Leads store (modify update : Action PUnit) :=
  Relation.ReflTransGen.single edit

end Composition

section Owning

variable (store : Store) (automaton : AutomatonRef)

theorem leads_claim {ref : StateRef} (held : ref ∈ store.states) :
    Leads store (claim automaton ref) := by
  refine Leads.of_ask (run_state store ref) (Leads.of_ask (run_automaton store automaton) ?_)
  split
  · exact (reads_throw _).leads store
  · have free := Bool.eq_false_iff.mpr ‹_›
    exact leads_modify (.automaton automaton _ fun _ => .enter ref held free)

theorem leads_adopt {refs : List StateRef} (held : ∀ ref ∈ refs, ref ∈ store.states) :
    Leads store (adopt automaton refs) := by
  refine Leads.forM fun ref member after edits => ?_
  exact leads_claim after automaton (edits.grows.states ref (held ref member)).1

theorem leads_adopt_ownedBy (closed : store.Closed) (source : AutomatonRef) :
    Leads store (do adopt automaton (← ownedBy source)) := by
  refine Leads.of_ask (run_ownedBy store source) ?_
  exact leads_adopt store automaton fun ref owned => closed.held_of_owned owned

/-- A state that is added under a new name is owned afterwards. -/
theorem run_addState_of_new {name : String} (accepting : Bool)
    (new : name ∉ (store.automata.get automaton).owned.keys) :
    ∃ after, (addState automaton { name, accepting }).run store = .ok store.states.fresh after ∧
      store.Edits after ∧
      (automaton ∈ after.automata → name ∈ (after.automata.get automaton).owned.keys) := by
  refine ⟨_, (run_addState store automaton _).trans (if_neg new), ?_, fun held => ?_⟩
  · have free : (store.automata.get automaton).clashes store.states.fresh name = false := by
      rw [Automaton.clashes, Table.find?_eq_none_iff.mpr new]
    refine Store.Edits.trans (.single (.newState name accepting)) (.single ?_)
    exact .automaton automaton _ fun _ => .enterNew { name, accepting } free
  · rw [Store.automata_changeAutomaton, Heap.get_change_self (Heap.mem_change.mp held)]
    exact Table.mem_keys_insert.mpr (Or.inl rfl)

theorem run_addState_of_owned {state : State}
    (owned : state.name ∈ (store.automata.get automaton).owned.keys) :
    (addState automaton state).run store = .error (.duplicateState state.name) store :=
  (run_addState store automaton state).trans (if_pos owned)

theorem leads_addState (name : String) (accepting : Bool) :
    Leads store (addState automaton { name, accepting }) := by
  by_cases owned : name ∈ (store.automata.get automaton).owned.keys
  · rw [Leads, ending_of_error (run_addState_of_owned store automaton owned)]
    exact .refl store
  · obtain ⟨after, ran, edits, _⟩ := run_addState_of_new store automaton accepting owned
    rw [Leads, ending_of_ok ran]
    exact edits

theorem leads_addStart (name : String) : Leads store (addStart automaton name) := by
  by_cases owned : name ∈ (store.automata.get automaton).owned.keys
  · rw [Leads, addStart, ending_bind_of_error (run_addState_of_owned store automaton owned)]
    exact .refl store
  · obtain ⟨after, ran, edits, present⟩ := run_addState_of_new store automaton false owned
    rw [Leads, addStart, ending_bind_of_ok ran]
    refine edits.trans (Leads.bind ?_ fun _ last _ => leads_pure _)
    exact leads_modify (.automaton automaton _ fun held => .start name (present held))

theorem leads_demote (state : StateRef) : Leads store (demote automaton state) := by
  refine Leads.of_ask (run_state store state) ?_
  refine (leads_modify (.state state State.clear .clear)).bind fun _ after _ => ?_
  exact leads_modify (.automaton automaton _ fun _ => .withdraw _)

theorem leads_connectToName (state : StateRef) (symbol target : String) :
    Leads store (connectToName state symbol target) := by
  by_cases proper : IsSymbol symbol
  · have ran := (run_connectToName store state symbol target).trans (if_pos proper)
    rw [Leads, ending_of_ok ran]
    exact .single (.state state _ (.connect symbol target proper))
  · have ran := (run_connectToName store state symbol target).trans (if_neg proper)
    rw [Leads, ending_of_error ran]
    exact .refl store

theorem leads_connect (symbol : String) (state target : StateRef) :
    Leads store (connect symbol state target) :=
  .of_ask (run_state store target) (leads_connectToName store state symbol _)

theorem leads_addLetter (symbol : String) : Leads store (addLetter automaton symbol) := by
  have ran := run_addLetter store automaton symbol
  by_cases silent : symbol = epsilon
  · rw [Leads, ending_of_error (ran.trans (if_pos silent))]
    exact .refl store
  · by_cases proper : IsSymbol symbol
    · rw [Leads, ending_of_ok (ran.trans ((if_neg silent).trans (if_pos proper)))]
      exact .single (.automaton automaton _ fun _ => .learn symbol proper silent)
    · rw [Leads, ending_of_error (ran.trans ((if_neg silent).trans (if_neg proper)))]
      exact .refl store

/-- A text that is not a character is refused. -/
theorem run_checkLetter_of_ne {text : String} (other : text.length ≠ 1) :
    ∃ fault, (checkLetter text).run store = .error fault store := by
  have ran := run_checkLetter store text
  by_cases silent : text = epsilon
  · exact ⟨_, ran.trans (if_pos silent)⟩
  · rw [if_neg silent, run_checkSymbol, if_neg fun proper => proper.elim silent other] at ran
    exact ⟨_, ran⟩

theorem leads_addLetters (symbols : List String) : Leads store (addLetters automaton symbols) :=
  .forM fun symbol _ after _ => leads_addLetter after automaton symbol

end Owning

section Compiling

variable (store : Store) (compiler : CompilerRef)

/-- Changing a compiler is of no account to automata, if it comes to note only characters. -/
theorem edit_changeCompiler {update : Compiler → Compiler}
    (noted : ∀ symbol ∈ (update (store.compilers.get compiler)).literals,
      symbol ∈ (store.compilers.get compiler).literals ∨ symbol.length = 1) :
    store.Edit (store.changeCompiler compiler update) := by
  refine .aside store.counters (store.compilers.change compiler update) fun ref symbol member => ?_
  rcases Heap.get_change_eq_or store.compilers compiler ref update with same | ⟨rfl, _, new⟩
  · exact Or.inl (same ▸ member)
  · exact noted symbol (new ▸ member)

theorem leads_advance (distance : Nat) : Leads store (advance compiler distance) :=
  leads_modify (edit_changeCompiler store compiler fun _ => Or.inl)

theorem leads_seek (position : Nat) : Leads store (seek compiler position) :=
  leads_modify (edit_changeCompiler store compiler fun _ => Or.inl)

theorem leads_freshName : Leads store (freshName compiler) :=
  Relation.ReflTransGen.single (edit_changeCompiler store compiler fun _ => Or.inl)

theorem leads_newAutomaton : Leads store (newAutomaton {}) :=
  Relation.ReflTransGen.single .newAutomaton

theorem leads_noteLiteral (symbol : String) : Leads store (noteLiteral compiler symbol) := by
  refine Leads.of_ask (run_compiler store compiler) ?_
  split
  · exact leads_pure ()
  · by_cases letter : symbol.length = 1
    · refine ((reads_checkLetter symbol).leads store).bind fun _ after _ => ?_
      refine leads_modify (edit_changeCompiler after compiler fun other member => ?_)
      rcases StringSet.mem_insert.mp member with rfl | before
      · exact Or.inr letter
      · exact Or.inl before
    · obtain ⟨fault, refused⟩ := run_checkLetter_of_ne store letter
      rw [Leads, ending_bind_of_error refused]
      exact .refl store

theorem leads_literal (symbol : String) : Leads store (literal compiler symbol) := by
  refine (leads_noteLiteral store compiler symbol).bind fun _ noted _ => ?_
  refine (leads_newAutomaton noted).bind fun automaton made _ => ?_
  refine (leads_freshName made compiler).bind fun name named _ => ?_
  refine (leads_addStart named automaton name).bind fun start started _ => ?_
  refine (leads_freshName started compiler).bind fun name named _ => ?_
  refine (leads_addState named automaton name true).bind fun accepting ended _ => ?_
  exact (leads_connect ended symbol start accepting).bind fun _ after _ => leads_pure automaton

theorem leads_alternative (closed : store.Closed) (first second : AutomatonRef) :
    Leads store (alternative compiler first second) := by
  refine (leads_newAutomaton store).bind fun automaton made madeEdits => ?_
  refine (leads_freshName made compiler).bind fun name named namedEdits => ?_
  refine (leads_addStart named automaton name).bind fun start started startedEdits => ?_
  have startedClosed := (namedEdits.trans startedEdits).closed (madeEdits.closed closed)
  refine Leads.of_ask (run_ownedBy started first) ?_
  refine (leads_adopt started automaton fun ref owned => ?_).bind fun _ joined joinedEdits => ?_
  · exact startedClosed.held_of_owned owned
  have joinedClosed := joinedEdits.closed startedClosed
  refine Leads.of_ask (run_ownedBy joined second) ?_
  refine (leads_adopt joined automaton fun ref owned => ?_).bind fun _ whole _ => ?_
  · exact joinedClosed.held_of_owned owned
  refine ((reads_startOf first).leads whole).bind fun entry found _ => ?_
  refine (leads_connect found epsilon start entry).bind fun _ connected _ => ?_
  refine ((reads_startOf second).leads connected).bind fun entry found _ => ?_
  exact (leads_connect found epsilon start entry).bind fun _ _ _ => leads_pure automaton

theorem leads_append (closed : store.Closed) (first second : AutomatonRef) :
    Leads store (append first second) := by
  refine ((reads_startOf second).leads store).bind fun entry found foundEdits => ?_
  refine Leads.of_ask (run_acceptingIn found first) ?_
  refine (Leads.forM fun state _ after _ => ?_).bind fun _ led ledEdits => ?_
  · exact (leads_demote after first state).bind fun _ last _ =>
      leads_connect last epsilon state entry
  exact leads_adopt_ownedBy led first (ledEdits.closed (foundEdits.closed closed)) second

theorem leads_concatenation (closed : store.Closed) (first : Option AutomatonRef)
    (second : AutomatonRef) : Leads store (concatenation first second) := by
  cases first with
  | none => exact leads_pure second
  | some first =>
      exact (leads_append store closed first second).bind fun _ _ _ => leads_pure first

theorem leads_repetition (automaton : AutomatonRef) : Leads store (repetition automaton) := by
  refine ((reads_startOf automaton).leads store).bind fun start found _ => ?_
  refine Leads.of_ask (run_acceptingIn found automaton) ?_
  refine (Leads.forM fun state _ after _ => ?_).bind fun _ _ _ => leads_pure automaton
  exact (leads_connect after epsilon start state).bind fun _ last _ =>
    leads_connect last epsilon state start

theorem leads_build (closed : store.Closed) (tree : Tree) :
    Leads store (build compiler tree) := by
  induction tree generalizing store with
  | literal character => exact leads_literal store compiler _
  | escaped character => exact leads_literal store compiler _
  | group _ ih => exact ih store closed
  | star _ ih => exact (ih store closed).bind fun automaton after _ =>
      leads_repetition after automaton
  | concat _ _ leftIH rightIH =>
      refine (leftIH store closed).bind fun first left leftEdits => ?_
      have leftClosed := leftEdits.closed closed
      refine (rightIH left leftClosed).bind fun second right rightEdits => ?_
      exact leads_concatenation right (rightEdits.closed leftClosed) (some first) second
  | alt _ _ leftIH rightIH =>
      refine (leftIH store closed).bind fun first left leftEdits => ?_
      have leftClosed := leftEdits.closed closed
      refine (rightIH left leftClosed).bind fun second right rightEdits => ?_
      exact leads_alternative right compiler (rightEdits.closed leftClosed) first second

theorem leads_expect (text : String) : Leads store (expect compiler text) := by
  refine ((reads_ahead compiler).leads store).bind fun characters after _ => ?_
  split
  · exact (reads_complain compiler _).leads after
  · split
    · exact leads_advance after compiler 1
    · exact (reads_complain compiler _).leads after

theorem leads_next : Leads store (next compiler) := by
  refine ((reads_peek compiler).leads store).bind fun character after _ => ?_
  exact (leads_expect after compiler _).bind fun _ _ _ => leads_pure character

theorem leads_abandon (failure : Failure) :
    Leads store (abandon compiler failure : Action α) := by
  refine Leads.bind (leads_modify (edit_changeCompiler store compiler fun symbol member => ?_))
    fun _ after _ => (reads_complain compiler failure.complaint).leads after
  rcases StringSet.mem_insertAll.mp member with noted | before
  · obtain ⟨character, _, rfl⟩ := List.mem_map.mp noted
    exact Or.inr (by simp)
  · exact Or.inl before

theorem leads_parse (closed : store.Closed) (rule : Rule) :
    Leads store (parse compiler rule) := by
  refine ((reads_ahead compiler).leads store).bind fun characters asked askedEdits => ?_
  split
  · exact leads_abandon asked compiler _
  · refine (leads_advance asked compiler _).bind fun _ moved movedEdits => ?_
    exact leads_build moved compiler ((askedEdits.trans movedEdits).closed closed) _

theorem leads_compile (closed : store.Closed) : Leads store (compile compiler) := by
  have clearing : store.Edit (store.changeCompiler compiler ({ · with literals := ∅ })) :=
    edit_changeCompiler store compiler fun symbol member =>
      absurd member (StringSet.not_mem_empty symbol)
  refine (leads_modify clearing).bind fun _ cleared clearedEdits => ?_
  refine ((reads_ahead compiler).leads cleared).bind fun characters asked askedEdits => ?_
  split
  · exact leads_reporting (leads_abandon asked compiler _) compiler
  · refine (leads_advance asked compiler _).bind fun _ moved movedEdits => ?_
    have edits := (clearedEdits.trans askedEdits).trans movedEdits
    refine (leads_build moved compiler (edits.closed closed) _).bind fun automaton built _ => ?_
    refine ((reads_compiler compiler).leads built).bind fun content after _ => ?_
    exact (leads_addLetters after automaton _).bind fun _ _ _ => leads_pure automaton

end Compiling

end Action

end PatternAutomata
