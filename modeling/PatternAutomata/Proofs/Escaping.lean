import PatternAutomata.Proofs.Construction
import PatternAutomata.Proofs.Pattern.Occurrences
import PatternAutomata.Proofs.Pattern.Roles

/-! # Which marks are literals

The grammar keeps a role for some characters, the marks. A mark in a pattern that is compiled
has its own role, or it is escaped, or it is a star that stands where a factor must begin and has
nothing to repeat (`Tree.role_of_mark`). A star of the last kind is a literal although nothing
escapes it; the other marks are complained about there. So the marks on the transitions are
escaped exactly in those patterns that have no such star (`Action.compile_marks`).
-/

namespace PatternAutomata

/-- The roles that are kept for characters are no literals. -/
theorem Role.not_isLiteral_of_own {mark : Char} {role : Role} (own : Role.own mark = some role) :
    role.isLiteral = false := by
  unfold Role.own at own
  split at own <;> cases own <;> rfl

namespace Tree

variable {tree : Tree} {position first : Nat}

/-- **The role of a mark:** its own, but where it is escaped, and but for a star where a factor
must begin. -/
theorem role_of_mark (fits : tree.Fits .regex) {mark : Char} {role : Role}
    (found : tree.text[position]? = some mark) (own : Role.own mark = some role) :
    tree.place position = .escaped ∧ tree.roles[position]? = some .escaped ∨
      tree.place position = .entry ∧ mark = '*' ∧ tree.roles[position]? = some .plain ∨
      tree.place position ≠ .escaped ∧ (tree.place position = .entry → mark ≠ '*') ∧
        tree.roles[position]? = some role := by
  rw [getElem?_roles fits found, Option.some_inj, Option.some_inj, Option.some_inj]
  exact Place.role_of_own own _

/-- A mark that is a literal is escaped, or it is a star where a factor must begin. -/
theorem place_of_mark (fits : tree.Fits .regex) {occurrence : Occurrence}
    (member : occurrence ∈ tree.occurrences 0 first)
    (mark : Role.own occurrence.character ≠ none) :
    tree.place occurrence.position = .escaped ∨
      tree.place occurrence.position = .entry ∧ occurrence.character = '*' := by
  obtain ⟨own, known⟩ := Option.ne_none_iff_exists'.mp mark
  obtain ⟨found, role, stands, isLiteral⟩ :=
    (tree.exists_occurrence_iff first).mp ⟨occurrence, member, rfl, rfl⟩
  rcases role_of_mark fits found known with escaped | leading | ⟨_, _, proper⟩
  · exact Or.inl escaped.1
  · exact Or.inr ⟨leading.1, leading.2.1⟩
  · -- a mark in its own role is no literal
    cases stands.symm.trans proper
    rw [Role.not_isLiteral_of_own known] at isLiteral
    cases isLiteral

/-- All marks among the literals are escaped exactly where no star stands where a factor must
begin. -/
theorem marks_escaped_iff (fits : tree.Fits .regex) :
    (∀ occurrence ∈ tree.occurrences 0 first, Role.own occurrence.character ≠ none →
        tree.place occurrence.position = .escaped) ↔
      ∀ position, tree.text[position]? = some '*' → tree.place position ≠ .entry := by
  constructor
  · intro escaped position found leading
    have plain : tree.roles[position]? = some .plain := by
      rw [getElem?_roles fits found, leading]
      rfl
    obtain ⟨occurrence, member, rfl, same⟩ :=
      (tree.exists_occurrence_iff first).mpr ⟨found, .plain, plain, rfl⟩
    have mark : Role.own occurrence.character ≠ none := by
      rw [same]
      exact nofun
    rw [escaped occurrence member mark] at leading
    cases leading
  · intro never occurrence member mark
    rcases place_of_mark fits member mark with escaped | ⟨leading, star⟩
    · exact escaped
    · obtain ⟨found, _⟩ := (tree.exists_occurrence_iff first).mp ⟨occurrence, member, rfl, rfl⟩
      exact absurd leading (never occurrence.position (star ▸ found))

end Tree

namespace Action

variable {store after : Store} {compiler : CompilerRef} {automaton : AutomatonRef}

/-- The transitions on characters of a compiled automaton come from the literals of the parse
tree, one from each. -/
theorem leads_of_compile {tree : Tree} (held : compiler ∈ store.compilers)
    (parses : tree.Parses (store.compilers.get compiler).ahead)
    (ran : (compile compiler).run store = .ok automaton after) {source target : String}
    {character : Char} :
    (after.machine automaton).Leads source (String.singleton character) target ↔
      ∃ literal ∈ tree.occurrences 0 (store.compilers.get compiler).names,
        literal.character = character ∧ source = literal.number.repr ∧
          target = (literal.number + 1).repr := by
  rw [(value_of_compile held parses ran).1, Fragment.leads_machine (tree.nodup_names_fragment _)]
  exact tree.moves_fragment_iff 0 _

/-- **Which marks are literals.** A pattern is complained about, or each of its marks has its
own role, is escaped, or is a star where a factor must begin. Each transition on a character comes
from one literal, so a mark labels none unless it is escaped or such a star. It takes an escape
in all cases exactly if the pattern has no such star. -/
theorem compile_marks (held : compiler ∈ store.compilers) :
    (∀ fault after, (compile compiler).run store = .error fault after → fault.OfReading) ∧
      ∀ automaton after, (compile compiler).run store = .ok automaton after →
        ∃ (tree : Tree) (literals : List Occurrence),
          tree.Parses (store.compilers.get compiler).ahead ∧
          literals = tree.occurrences 0 (store.compilers.get compiler).names ∧
          (literals.Pairwise fun before after => before.number + 1 < after.number) ∧
          (∀ source character target,
            (after.machine automaton).Leads source (String.singleton character) target ↔
              ∃ literal ∈ literals, literal.character = character ∧
                source = literal.number.repr ∧ target = (literal.number + 1).repr) ∧
          (∀ literal ∈ literals, tree.text[literal.position]? = some literal.character ∧
            (Role.own literal.character ≠ none → tree.place literal.position = .escaped ∨
              tree.place literal.position = .entry ∧ literal.character = '*')) ∧
          (∀ position mark role, tree.text[position]? = some mark → Role.own mark = some role →
            tree.place position = .escaped ∧ tree.roles[position]? = some .escaped ∨
              tree.place position = .entry ∧ mark = '*' ∧ tree.roles[position]? = some .plain ∨
              tree.place position ≠ .escaped ∧ (tree.place position = .entry → mark ≠ '*') ∧
                tree.roles[position]? = some role) ∧
          ((∀ literal ∈ literals, Role.own literal.character ≠ none →
              tree.place literal.position = .escaped) ↔
            ∀ position, tree.text[position]? = some '*' → tree.place position ≠ .entry) := by
  refine ⟨fun _ _ ran => ofReading_of_compile held ran, fun automaton after ran => ?_⟩
  obtain ⟨tree, read, _⟩ := machine_of_compile held ran
  have parses := parses_of_readPattern read
  refine ⟨tree, _, parses, rfl, tree.occurrences_increase 0 _,
    fun _ _ _ => leads_of_compile held parses ran, ?_, ?_, Tree.marks_escaped_iff parses.1⟩
  · intro literal member
    obtain ⟨found, _⟩ := (tree.exists_occurrence_iff _).mp ⟨literal, member, rfl, rfl⟩
    exact ⟨found, Tree.place_of_mark parses.1 member⟩
  · intro position mark role found own
    exact Tree.role_of_mark parses.1 found own

/-- Of an escaped parenthesis and the star behind it, only the parenthesis is a literal. -/
theorem compile_marks_escaped_parenthesis :
    (⟨0⟩ : CompilerRef) ∈ (Store.reading ['\\', '(', '*']).compilers ∧
      ∃ automaton after, (compile ⟨0⟩).run (.reading ['\\', '(', '*']) = .ok automaton after ∧
        ∀ source character target,
          (after.machine automaton).Leads source (String.singleton character) target ↔
            character = '(' ∧ source = "0" ∧ target = "1" := by
  have parsed : readPattern ['\\', '(', '*'] = .ok (.star (.escaped '(')) := by decide
  have held : (⟨0⟩ : CompilerRef) ∈ (Store.reading ['\\', '(', '*']).compilers := by decide
  obtain ⟨automaton, after, ran⟩ := exists_run_compile parsed
  obtain ⟨tree, literals, parses, rfl, _, leads, _⟩ := (compile_marks held).2 automaton after ran
  cases parses.unique (parses_of_readPattern parsed)
  refine ⟨held, automaton, after, ran, fun source character target => (leads _ _ _).trans ?_⟩
  constructor
  · rintro ⟨literal, member, rfl, rfl, rfl⟩
    rw [List.mem_singleton.mp member]
    decide
  · rintro ⟨rfl, rfl, rfl⟩
    exact ⟨_, List.mem_singleton_self _, rfl, rfl, rfl⟩

/-- A star on its own is compiled, and labels a transition although nothing escapes it. -/
theorem compile_star_unescaped :
    ∃ automaton after, (compile ⟨0⟩).run (.reading ['*']) = .ok automaton after ∧
      (after.machine automaton).Leads "0" (String.singleton '*') "1" ∧ '\\' ∉ ['*'] := by
  have parsed : readPattern ['*'] = .ok (.literal '*') := by decide
  have held : (⟨0⟩ : CompilerRef) ∈ (Store.reading ['*']).compilers := by decide
  obtain ⟨automaton, after, ran⟩ := exists_run_compile parsed
  refine ⟨automaton, after, ran, ?_, by decide⟩
  apply (leads_of_compile held (parses_of_readPattern parsed) ran).mpr
  exact ⟨_, List.mem_singleton_self _, rfl, rfl, rfl⟩

end Action

end PatternAutomata
