import PatternAutomata.Proofs.Alphabet
import PatternAutomata.Proofs.Construction
import PatternAutomata.Proofs.Pattern.Quoting

/-! # Escaping quotes text

A text with a backslash before each character is a pattern for this text and nothing else, whatever
characters it has (`Tree.mem_language_quoted`). In a larger pattern a single character that stands
for itself may be escaped or not, which changes neither the automaton nor the names taken, and no
failure either (`Action.compile_quotes`).
-/

namespace PatternAutomata

/-- A text with a backslash before each of its characters. -/
def escapeAll (text : List Char) : List Char :=
  text.flatMap fun character => ['\\', character]

namespace Tree

/-- A tree with a row of escaped characters behind it. -/
def quoted (before : Tree) (text : List Char) : Tree :=
  text.foldl (fun tree character => .concat tree (.escaped character)) before

variable {before : Tree} {text : List Char}

theorem quoted_cons (before : Tree) (character : Char) (text : List Char) :
    before.quoted (character :: text) = (concat before (escaped character)).quoted text := rfl

theorem text_quoted (before : Tree) (text : List Char) :
    (before.quoted text).text = before.text ++ escapeAll text := by
  induction text generalizing before with
  | nil => exact (List.append_nil _).symm
  | cons character text ih =>
      rw [quoted_cons, ih, Tree.text, List.append_assoc]
      rfl

theorem literals_quoted (before : Tree) (text : List Char) :
    (before.quoted text).literals = before.literals ++ text := by
  induction text generalizing before with
  | nil => exact (List.append_nil _).symm
  | cons character text ih =>
      rw [quoted_cons, ih, literals, List.append_assoc]
      rfl

theorem names_quoted (before : Tree) (text : List Char) :
    (before.quoted text).names = before.names + 2 * text.length := by
  induction text generalizing before with
  | nil => rfl
  | cons character text ih =>
      rw [quoted_cons, ih, names, names, List.length_cons]
      omega

theorem frames_quoted (before : Tree) (text : List Char) :
    (before.quoted text).frames = before.frames := by
  induction text generalizing before with
  | nil => rfl
  | cons character text ih =>
      rw [quoted_cons, ih, frames, frames]
      exact Nat.max_zero _

theorem starsApart_quoted (before : Tree) (text : List Char) :
    (before.quoted text).starsApart = before.starsApart := by
  induction text generalizing before with
  | nil => rfl
  | cons character text ih =>
      rw [quoted_cons, ih, starsApart]
      exact Bool.and_true _

theorem fits_quoted (fits : before.Fits .term) (text : List Char) :
    (before.quoted text).Fits .term := by
  induction text generalizing before with
  | nil => exact fits
  | cons character text ih =>
      exact ih (.concat fits (.ofBase .escaped) (by simp [Tree.text]))

/-- Escaped characters go on with a word in one way only. -/
theorem mem_language_quoted {word : List Char} :
    word ∈ (before.quoted text).language ↔ ∃ front ∈ before.language, front ++ text = word := by
  induction text generalizing before with
  | nil => simp [quoted]
  | cons character text ih =>
      rw [quoted_cons, ih]
      constructor
      · rintro ⟨_, member, rfl⟩
        obtain ⟨front, inside, _, rfl, rfl⟩ := Language.mem_mul.mp member
        exact ⟨front, inside, by simp⟩
      · rintro ⟨front, inside, rfl⟩
        exact ⟨front ++ [character], Language.mem_mul.mpr ⟨front, inside, _, rfl, rfl⟩, by simp⟩

/-- A text that is escaped throughout has a parse tree that denotes just this text. -/
theorem exists_quoted (some : text ≠ []) :
    ∃ tree : Tree, readPattern (escapeAll text) = .ok tree ∧ tree.literals = text ∧
      tree.names = 2 * text.length ∧ tree.starsApart = true ∧
      ∀ word, word ∈ tree.language ↔ word = text := by
  obtain ⟨character, rest, rfl⟩ := List.exists_cons_of_ne_nil some
  refine ⟨(escaped character).quoted rest, readPattern_eq_ok_iff.mpr ⟨⟨?_, ?_⟩, ?_⟩, ?_, ?_, ?_,
    fun word => ?_⟩
  · exact .ofTerm (fits_quoted (.ofFactor (.ofBase .escaped)) rest)
  · rw [text_quoted]
    rfl
  · rw [frames_quoted]
    exact Nat.zero_le _
  · rw [literals_quoted]
    rfl
  · rw [names_quoted, names, List.length_cons]
    omega
  · rw [starsApart_quoted]
    rfl
  · rw [mem_language_quoted]
    constructor
    · rintro ⟨_, rfl, rfl⟩
      rfl
    · rintro rfl
      exact ⟨[character], rfl, rfl⟩

end Tree

/-- Failures that finished trees of the same shapes have taken as many names. -/
theorem Failure.names_of_shapes {failure other : Failure}
    (shapes : failure.finished.map Tree.shape = other.finished.map Tree.shape) :
    failure.names = other.names := by
  have counted (trees : List Tree) :
      trees.foldr (fun tree count => tree.names + count) 0 =
        (trees.map Tree.shape).foldr (fun tree count => tree.names + count) 0 := by
    rw [List.foldr_map]
    simp only [Tree.names_shape]
  rw [names, names, counted, counted other.finished, shapes]

namespace Action

variable {store store' : Store} {compiler compiler' : CompilerRef}

/-- A text that is escaped throughout is compiled to an automaton for this text alone. -/
theorem compile_escapeAll (held : compiler ∈ store.compilers) {text : List Char}
    (some : text ≠ []) (lies : (store.compilers.get compiler).ahead = escapeAll text) :
    ∃ automaton after, (compile compiler).run store = .ok automaton after ∧
      (after.compilers.get compiler).names =
        (store.compilers.get compiler).names + 2 * text.length ∧
      (after.machine automaton).alphabet = symbolsOf text ∧
      ∀ word, ∃ answer, (after.machine automaton).accepts word = .ok answer ∧
        (answer = true ↔ word = text) := by
  obtain ⟨tree, read, literals, names, apart, language⟩ := Tree.exists_quoted some
  rw [← lies] at read
  obtain ⟨automaton, after, _, ran, _⟩ := run_compile_of_ok held read
  obtain ⟨value, counted⟩ := value_of_compile held (parses_of_readPattern read) ran
  refine ⟨automaton, after, ran, names ▸ counted, ?_, fun word => ?_⟩
  · rw [value, symbolsOf, ← literals]
    rfl
  · rw [value, ← language, ← Tree.through_eq_language apart]
    exact tree.accepts_fragment _ _ word

/-- Patterns that are the same but for a backslash that makes no difference are compiled to the
same automaton and take as many names, or both of them fail behind as many. -/
theorem compile_of_near (held : compiler ∈ store.compilers) (held' : compiler' ∈ store'.compilers)
    (near : Near (store.compilers.get compiler).ahead (store'.compilers.get compiler').ahead)
    (counted : (store.compilers.get compiler).names = (store'.compilers.get compiler').names) :
    (∃ automaton after automaton' after',
        (compile compiler).run store = .ok automaton after ∧
        (compile compiler').run store' = .ok automaton' after' ∧
        after.machine automaton = after'.machine automaton' ∧
        (after.compilers.get compiler).names = (after'.compilers.get compiler').names) ∨
      ∃ fault after fault' after',
        (compile compiler).run store = .error fault after ∧
        (compile compiler').run store' = .error fault' after' ∧
        (after.compilers.get compiler).names = (after'.compilers.get compiler').names := by
  obtain ⟨tree, other, read, read', shape⟩ | ⟨failure, other, failed, failed', shapes⟩ :=
    readPattern_alike near
  · obtain ⟨automaton, after, _, ran, _⟩ := run_compile_of_ok held read
    obtain ⟨automaton', after', _, ran', _⟩ := run_compile_of_ok held' read'
    obtain ⟨value, names⟩ := value_of_compile held (parses_of_readPattern read) ran
    obtain ⟨value', names'⟩ := value_of_compile held' (parses_of_readPattern read') ran'
    refine .inl ⟨automaton, after, automaton', after', ran, ran', ?_, ?_⟩
    · rw [value, value', ← tree.fragment_shape, ← tree.alphabet_shape, shape, counted,
        other.fragment_shape, other.alphabet_shape]
    · rw [names, names', ← tree.names_shape, shape, counted, other.names_shape]
  · refine .inr ⟨_, _, _, _, run_compile_of_failure held failed,
      run_compile_of_failure held' failed', ?_⟩
    rw [Store.compilers_changeCompiler, Store.compilers_changeCompiler,
      Heap.get_change_self held, Heap.get_change_self held']
    change _ + failure.names = _ + other.names
    rw [Failure.names_of_shapes shapes, counted]

/-- **Escaping quotes any text.** A text with a backslash before each character is compiled, for
whatever characters it has: its automaton accepts the text and no other word, its alphabet has the
characters of the text, and two names are taken for each. In any pattern a character that has no
role of its own and is not escaped can be escaped: the automaton and the names taken stay the same,
or where compiling fails it fails either way, behind as many names. -/
theorem compile_quotes (held : compiler ∈ store.compilers) :
    (∀ text, text ≠ [] → (store.compilers.get compiler).ahead = escapeAll text →
      ∃ automaton after, (compile compiler).run store = .ok automaton after ∧
        (after.compilers.get compiler).names =
          (store.compilers.get compiler).names + 2 * text.length ∧
        (after.machine automaton).alphabet = symbolsOf text ∧
        ∀ word, ∃ answer, (after.machine automaton).accepts word = .ok answer ∧
          (answer = true ↔ word = text)) ∧
      ∀ front character behind, Role.own character = none → Place.entry.pass front ≠ .escaped →
        (store.compilers.get compiler).ahead = front ++ character :: behind →
        ∀ (store' : Store) (compiler' : CompilerRef), compiler' ∈ store'.compilers →
          (store'.compilers.get compiler').ahead = front ++ '\\' :: character :: behind →
          (store.compilers.get compiler).names = (store'.compilers.get compiler').names →
          (∃ automaton after automaton' after',
              (compile compiler).run store = .ok automaton after ∧
              (compile compiler').run store' = .ok automaton' after' ∧
              after.machine automaton = after'.machine automaton' ∧
              (after.compilers.get compiler).names = (after'.compilers.get compiler').names) ∨
            ∃ fault after fault' after',
              (compile compiler).run store = .error fault after ∧
              (compile compiler').run store' = .error fault' after' ∧
              (after.compilers.get compiler).names = (after'.compilers.get compiler').names := by
  refine ⟨fun text some lies => compile_escapeAll held some lies, ?_⟩
  intro front character behind ordinary unescaped lies store' compiler' held' lies' counted
  refine compile_of_near held held' ?_ counted
  have begins : Place.entry ≠ .escaped := nofun
  rw [lies, lies']
  exact .inr (Place.marked ordinary behind front begins unescaped)

/-- A backslash, a star and a parenthesis as text, and a letter behind an escaped backslash that is
escaped as well. -/
theorem compile_quotes_marks :
    let text := ['\\', '*', ')']
    let plain := ['(', '\\', '\\', 'a', ')', '*']
    let marked := ['(', '\\', '\\', '\\', 'a', ')', '*']
    (⟨0⟩ : CompilerRef) ∈ (Store.reading (escapeAll text)).compilers ∧
      (∃ automaton after, (compile ⟨0⟩).run (.reading (escapeAll text)) = .ok automaton after ∧
        (after.compilers.get ⟨0⟩).names = 6 ∧
        (after.machine automaton).accepts text = .ok true ∧
        (after.machine automaton).accepts ['*'] = .ok false) ∧
      ∃ automaton after automaton' after',
        (compile ⟨0⟩).run (.reading plain) = .ok automaton after ∧
        (compile ⟨0⟩).run (.reading marked) = .ok automaton' after' ∧
        after.machine automaton = after'.machine automaton' := by
  intro text plain marked
  have held (pattern : List Char) : (⟨0⟩ : CompilerRef) ∈ (Store.reading pattern).compilers :=
    Heap.mem_add.mpr (Or.inr rfl)
  refine ⟨held _, ?_, ?_⟩
  · obtain ⟨automaton, after, ran, names, _, answers⟩ :=
      (compile_quotes (held (escapeAll text))).1 text (by decide) rfl
    obtain ⟨answer, answered, decides⟩ := answers text
    obtain ⟨refused, answeredOther, decidesOther⟩ := answers ['*']
    rw [decides.mpr rfl] at answered
    rw [Bool.eq_false_of_not_eq_true (decidesOther.not.mpr (by decide))] at answeredOther
    exact ⟨automaton, after, ran, names, answered, answeredOther⟩
  · have parsed : readPattern plain =
        .ok (.star (.group (.concat (.escaped '\\') (.literal 'a')))) := by
      decide
    obtain ⟨_, _, first⟩ := exists_run_compile parsed
    obtain ⟨automaton, after, automaton', after', ran, ran', same, _⟩ | ⟨_, _, _, _, failed, _⟩ :=
      (compile_quotes (held plain)).2 ['(', '\\', '\\'] 'a' [')', '*'] (by decide) (by decide) rfl
        (.reading marked) ⟨0⟩ (held marked) rfl rfl
    · exact ⟨automaton, after, automaton', after', ran, ran', same⟩
    · rw [first] at failed
      cases failed

end Action

end PatternAutomata
