import PatternAutomata.Pattern.Role
import PatternAutomata.Proofs.Pattern.Refusal

/-! # Roles in what was read

In a derivation the characters have the roles that can be told from the text before them
(`Tree.roles_text`), so its literals are those of its text (`Tree.literals_text`).

A reader that fails has met the same literals: those of the trees that it had finished are
those of the text before the place of the failure (`Failure.Notes`). No literal is met twice
or left out, wherever reading breaks off.
-/

namespace PatternAutomata

/-- A character that is not reserved is plain where a factor must begin. -/
theorem Place.role_of_plain {character : Char} (plain : character ∉ Tree.reserved) :
    entry.role character = .plain := by
  unfold role
  split <;> simp_all [Tree.reserved]

/-- A character that is not reserved is behind a factor once it is read. -/
theorem Place.step_of_plain {character : Char} (plain : character ∉ Tree.reserved) :
    entry.step character = .behind := by
  rw [step, role_of_plain plain]
  rfl

/-- **Roles without the tree.** In a derivation each character has the role that the text
before it gives, and what follows is behind a factor. -/
theorem Tree.roles_text {rule : Rule} {tree : Tree} (fits : tree.Fits rule) :
    Place.entry.roles tree.text = tree.roles ∧ Place.entry.pass tree.text = .behind := by
  induction fits with
  | literal plain =>
      refine ⟨?_, Place.step_of_plain plain⟩
      rw [text, Place.roles, Place.role_of_plain plain]
      rfl
  | escaped => exact ⟨rfl, rfl⟩
  | @group inner _ ih =>
      constructor
      · change .opening :: Place.entry.roles (inner.text ++ [')']) = _
        rw [Place.roles_append, ih.1, ih.2]
        rfl
      · change Place.entry.pass (inner.text ++ [')']) = _
        rw [Place.pass_append, ih.2]
        rfl
  | ofBase _ ih => exact ih
  | star _ ih =>
      rw [text, Place.roles_append, Place.pass_append, ih.1, ih.2]
      exact ⟨rfl, rfl⟩
  | ofFactor _ ih => exact ih
  | @concat first second _ _ apart firstIH secondIH =>
      -- the second part is read where a factor must begin, but stands behind one
      rw [text, Place.roles_append, Place.pass_append, firstIH.1, firstIH.2,
        Place.roles_behind apart, Place.pass_behind second.text_ne_nil apart, secondIH.1]
      exact ⟨rfl, secondIH.2⟩
  | ofTerm _ ih => exact ih
  | @alt first second _ _ firstIH secondIH =>
      rw [text, Place.roles_append, Place.pass_append, firstIH.1, firstIH.2]
      change first.roles ++ .bar :: Place.entry.roles second.text = _ ∧
        Place.entry.pass second.text = _
      rw [secondIH.1]
      exact ⟨rfl, secondIH.2⟩

/-- The place at a position of a derivation can be told from the text before it. -/
theorem Tree.place_eq {rule : Rule} {tree : Tree} (fits : tree.Fits rule) {position : Nat}
    (inside : position ≤ tree.text.length) :
    Place.entry.pass (tree.text.take position) = tree.place position := by
  cases position with
  | zero => rfl
  | succ position =>
      have found : tree.text[position]? = some tree.text[position] := List.getElem?_eq_getElem inside
      rw [Place.pass_take_succ _ found, place, ← (roles_text fits).1, Place.getElem?_roles, found]
      rfl

/-- The role of a character in a derivation follows from its place. -/
theorem Tree.getElem?_roles {rule : Rule} {tree : Tree} (fits : tree.Fits rule) {position : Nat}
    {character : Char} (found : tree.text[position]? = some character) :
    tree.roles[position]? = some ((tree.place position).role character) := by
  have inside : position < tree.text.length := (List.getElem?_eq_some_iff.mp found).1
  rw [← (roles_text fits).1, Place.getElem?_roles, found, place_eq fits (Nat.le_of_lt inside)]
  rfl

/-- The literals of a derivation are those of its text. -/
theorem Tree.literals_text {rule : Rule} {tree : Tree} (fits : tree.Fits rule) :
    Place.entry.literals tree.text = tree.literals := by
  rw [Place.literals, (roles_text fits).1, literals_roles]

/-- The trees finished before a failure have the literals of what lies before its place. -/
def Failure.Notes (failure : Failure) (ahead : List Char) : Prop :=
  ∃ front, ahead = front ++ failure.rest ∧ Place.entry.literals front = failure.literals

namespace Failure.Notes

variable {failure : Failure} {rule : Rule} {first : Tree} {ahead : List Char}

/-- Behind a parenthesis. -/
theorem group (notes : failure.Notes ahead) : failure.Notes ('(' :: ahead) := by
  obtain ⟨front, rfl, noted⟩ := notes
  exact ⟨'(' :: front, rfl, noted⟩

/-- Behind a tree, where no star goes on with it. -/
theorem behind (notes : failure.Notes ahead) (fits : first.Fits rule)
    (apart : ahead.head? ≠ some '*') : (failure.behind first).Notes (first.text ++ ahead) := by
  obtain ⟨front, rfl, noted⟩ := notes
  refine ⟨first.text ++ front, (List.append_assoc _ _ _).symm, ?_⟩
  -- where nothing was read, the first character is still ahead
  have begins : front.head? ≠ some '*' := by
    cases front with
    | nil => exact nofun
    | cons character front => exact apart
  rw [Place.literals_append, (Tree.roles_text fits).2, Tree.literals_text fits,
    Place.literals_behind begins, noted]
  rfl

/-- Behind a tree and a bar. -/
theorem alt (notes : failure.Notes ahead) (fits : first.Fits rule) :
    (failure.behind first).Notes (first.text ++ '|' :: ahead) := by
  obtain ⟨front, rfl, noted⟩ := notes
  refine ⟨first.text ++ '|' :: front, ?_, ?_⟩
  · rw [List.append_assoc]
    rfl
  · rw [Place.literals_append, (Tree.roles_text fits).2, Tree.literals_text fits]
    change first.literals ++ Place.entry.literals front = first.literals ++ failure.literals
    rw [noted]

end Failure.Notes

/-- All that was read is a tree, and it is the only one that was finished. -/
theorem Failure.notes_finished {rule : Rule} {tree : Tree} (fits : tree.Fits rule)
    (complaint : Complaint) (rest : List Char) :
    ({ complaint, rest, finished := [tree] } : Failure).Notes (tree.text ++ rest) :=
  ⟨tree.text, rfl, (Tree.literals_text fits).trans (List.append_nil _).symm⟩

namespace Reader

/-- A reader whose failures know the literals before them. -/
def Notes (reader : Reader) : Prop :=
  ∀ ⦃ahead : List Char⦄ ⦃failure : Failure⦄, reader ahead = .error failure → failure.Notes ahead

variable {inside further : Reader} {ahead : List Char} {before : Tree} {failure : Failure}
  {bound : Nat}

theorem notes_refuse : Notes refuse := by
  intro ahead failure failed
  cases failed
  exact ⟨[], rfl, rfl⟩

theorem notes_base (groups : Groups inside bound) (notes : Notes inside) :
    Notes (base inside) := by
  intro ahead failure failed
  unfold base at failed
  split at failed
  · cases failed
    exact ⟨[], rfl, rfl⟩
  · split at failed
    · rename_i failedInner
      cases failed
      exact (notes failedInner).group
    · cases failed
    · rename_i inner rest _ readInner
      cases failed
      rw [groups.faithful readInner]
      exact (Failure.notes_finished (groups.derives readInner) _ rest).group
  · cases failed
    exact ⟨['\\'], rfl, rfl⟩
  · cases failed
  · cases failed

theorem notes_factor (groups : Groups inside bound) (notes : Notes inside) :
    Notes (factor inside) :=
  fun _ _ failed => notes_base groups notes (base_of_factor_error failed)

theorem notes_allFactors (groups : Groups inside bound) (notes : Notes inside)
    (fits : before.Fits .term) (apart : ahead.head? ≠ some '*')
    (failed : allFactors inside before ahead = .error failure) :
    failure.Notes (before.text ++ ahead) := by
  refine allFactors_induction groups.faithful (motive := fun before ahead result =>
    before.Fits .term → ahead.head? ≠ some '*' → result = .error failure →
      failure.Notes (before.text ++ ahead)) ?_ ?_ ?_ before ahead fits apart failed
  · intro before ahead _ _ _ same
    cases same
  · intro before ahead failure _ failedFactor fits apart same
    cases same
    exact (notes_factor groups notes failedFactor).behind fits apart
  · intro before ahead next after goesOn readFactor result later fits apart same
    obtain ⟨nextFits, nextApart⟩ :=
      fits_factor groups.derives (Bool.not_eq_true _ ▸ goesOn) readFactor
    have begins : next.text.head? ≠ some '*' := by
      rw [head?_text_of_factor groups.faithful readFactor]
      exact apart
    have noted := later (.concat fits nextFits begins) nextApart same
    rw [Tree.text, List.append_assoc, ← faithful_factor groups.faithful readFactor] at noted
    exact noted

theorem notes_term (groups : Groups inside bound) (notes : Notes inside) :
    Notes (term inside) := by
  intro ahead failure failed
  unfold term at failed
  split at failed
  · cases failed
    exact ⟨[], rfl, rfl⟩
  · rename_i goesOn
    split at failed
    · rename_i failedFactor
      cases failed
      exact notes_factor groups notes failedFactor
    · rename_i first after readFactor
      obtain ⟨fits, apart⟩ := fits_factor groups.derives (Bool.not_eq_true _ ▸ goesOn) readFactor
      rw [faithful_factor groups.faithful readFactor]
      exact notes_allFactors groups notes (.ofFactor fits) apart failed

theorem notes_alternatives (groups : Groups inside bound) (notes : Notes inside)
    (furtherNotes : Notes further) : Notes (alternatives inside further) := by
  intro ahead failure failed
  unfold alternatives at failed
  split at failed
  · rename_i failedTerm
    cases failed
    exact notes_term groups notes failedTerm
  · rename_i first behind readTerm
    split at failed
    · rename_i failedFurther
      cases failed
      rw [faithful_term groups.faithful readTerm]
      exact (furtherNotes failedFurther).alt (derives_term groups.derives groups.faithful readTerm)
    · cases failed
  · cases failed

/-- A regex that fails has met the literals before the place of the failure. -/
theorem notes_regex (frames : Nat) : Notes (regex frames) :=
  regex_induction notes_refuse
    (fun _ => notes_alternatives (groups_inGroup fun fewer _ => breaks_regex fewer)) frames

end Reader

/-- A pattern that cannot be read has given the literals before the place of the failure. -/
theorem notes_of_readPattern_error {pattern : List Char} {failure : Failure}
    (failed : readPattern pattern = .error failure) : failure.Notes pattern := by
  unfold readPattern at failed
  split at failed
  · rename_i failedRegex
    cases failed
    exact Reader.notes_regex frameBound failedRegex
  · cases failed
  · rename_i tree next rest readRegex
    cases failed
    rw [Reader.faithful_regex frameBound readRegex]
    exact Failure.notes_finished (Reader.derives_regex frameBound readRegex) _ _

end PatternAutomata
