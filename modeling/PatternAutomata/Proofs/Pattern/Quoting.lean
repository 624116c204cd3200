import PatternAutomata.Pattern.Role
import PatternAutomata.Proofs.Pattern.Foresight
import PatternAutomata.Proofs.Pattern.Shape

/-! # Backslashes that make no difference

A backslash before a character that the grammar keeps no role for makes no difference, unless the
character is escaped already (`Marked`). With it and without it, the same is read up to the shape
of trees, wherever the character stands and whether or not reading comes to an end
(`readPattern_alike`).
-/

namespace PatternAutomata

/-- Two texts that are the same but for a backslash before a character of the first, which is not
escaped there and has no role of its own. -/
inductive Marked : List Char → List Char → Prop
  | here {character : Char} (ordinary : Role.own character = none) (behind : List Char) :
      Marked (character :: behind) ('\\' :: character :: behind)
  | escaped (next : Char) {plain marked : List Char} :
      Marked plain marked → Marked ('\\' :: next :: plain) ('\\' :: next :: marked)
  | next {next : Char} (unescaping : next ≠ '\\') {plain marked : List Char} :
      Marked plain marked → Marked (next :: plain) (next :: marked)

namespace Place

/-- Nothing but a backslash that is not escaped itself escapes what is behind it. -/
theorem step_eq_escaped_iff {place : Place} (unescaped : place ≠ .escaped) {character : Char} :
    place.step character = .escaped ↔ character = '\\' := by
  cases place with
  | escaped => exact absurd rfl unescaped
  | entry =>
      unfold step role
      split <;> simp_all [Role.leaves]
  | behind =>
      unfold step role
      split <;> simp_all [Role.leaves]

theorem step_escaped_ne (character : Char) : escaped.step character ≠ .escaped := nofun

/-- A place that is not escaped can be marked. -/
theorem marked {character : Char} (ordinary : Role.own character = none) (behind : List Char) :
    ∀ {place : Place} (front : List Char), place ≠ .escaped → place.pass front ≠ .escaped →
      Marked (front ++ character :: behind) (front ++ '\\' :: character :: behind)
  | _, [], _, _ => .here ordinary behind
  | place, [last], unescaped, passed => by
      have unescaping : last ≠ '\\' := (step_eq_escaped_iff unescaped).not.mp passed
      exact .next unescaping (.here ordinary behind)
  | place, first :: second :: front, unescaped, passed => by
      by_cases escapes : first = '\\'
      · subst escapes
        rw [pass_cons, pass_cons, (step_eq_escaped_iff unescaped).mpr rfl] at passed
        exact .escaped second (marked ordinary behind front (step_escaped_ne second) passed)
      · have stepped : place.step first ≠ .escaped := (step_eq_escaped_iff unescaped).not.mpr escapes
        exact .next escapes (marked ordinary behind (second :: front) stepped passed)

end Place

/-- Two texts that are the same, or but for a backslash that makes no difference. -/
def Near (plain marked : List Char) : Prop :=
  plain = marked ∨ Marked plain marked

namespace Near

variable {plain marked : List Char}

/-- A character with a role other than escaping stands at the front of both texts or of neither. -/
theorem front_cases (near : Near plain marked) (mark : Char) (kept : Role.own mark ≠ none)
    (unescaping : mark ≠ '\\') :
    (∃ rest restMarked, plain = mark :: rest ∧ marked = mark :: restMarked ∧ Near rest restMarked) ∨
      plain.head? ≠ some mark ∧ marked.head? ≠ some mark := by
  obtain rfl | marked := near
  · by_cases front : plain.head? = some mark
    · obtain ⟨rest, rfl⟩ := List.head?_eq_some_iff.mp front
      exact .inl ⟨rest, rest, rfl, rfl, .inl rfl⟩
    · exact .inr ⟨front, front⟩
  · cases marked with
    | here ordinary behind =>
        refine .inr ⟨fun same => kept ?_, fun same => unescaping (Option.some.inj same).symm⟩
        rw [← Option.some.inj same, ordinary]
    | escaped next marked =>
        exact .inr ⟨fun same => unescaping (Option.some.inj same).symm,
          fun same => unescaping (Option.some.inj same).symm⟩
    | @next next _ rest restMarked marked =>
        by_cases front : next = mark
        · subst front
          exact .inl ⟨rest, restMarked, rfl, rfl, .inr marked⟩
        · exact .inr ⟨fun same => front (Option.some.inj same), fun same =>
            front (Option.some.inj same)⟩

theorem eq_nil_iff (near : Near plain marked) : plain = [] ↔ marked = [] := by
  obtain rfl | marked := near
  · exact Iff.rfl
  · cases marked <;> exact iff_of_false nofun nofun

theorem endsTerm_eq (near : Near plain marked) :
    Reader.endsTerm plain = Reader.endsTerm marked := by
  obtain rfl | marked := near
  · rfl
  · cases marked with
    | @here character ordinary behind =>
        have notClosing : character ≠ ')' := fun same => nomatch same ▸ ordinary
        have notBar : character ≠ '|' := fun same => nomatch same ▸ ordinary
        simp [Reader.endsTerm, notClosing, notBar]
    | escaped next marked => rfl
    | next unescaping marked => rfl

end Near

namespace Reader

/-- Results with trees of the same shape, of readers that have come to the same place or have
failed. -/
inductive Alike : Result → Result → Prop
  | ok {first second : Tree} {plain marked : List Char} (shape : first.shape = second.shape)
      (near : Near plain marked) : Alike (.ok (first, plain)) (.ok (second, marked))
  | error {first second : Failure}
      (finished : first.finished.map Tree.shape = second.finished.map Tree.shape) :
      Alike (.error first) (.error second)

theorem Alike.refl (result : Result) : Alike result result := by
  cases result with
  | ok value => exact .ok rfl (.inl rfl)
  | error failure => exact .error rfl

theorem Alike.cases {result other : Result} (alike : Alike result other) :
    (∃ first second plain marked, result = .ok (first, plain) ∧ other = .ok (second, marked) ∧
        first.shape = second.shape ∧ Near plain marked) ∨
      ∃ first second, result = .error first ∧ other = .error second ∧
        first.finished.map Tree.shape = second.finished.map Tree.shape := by
  cases alike with
  | ok shape near => exact .inl ⟨_, _, _, _, rfl, rfl, shape, near⟩
  | error finished => exact .inr ⟨_, _, rfl, rfl, finished⟩

/-- The trees finished by a failure, behind trees of the same shape. -/
theorem alike_behind {first second : Tree} {failure other : Failure}
    (finished : failure.finished.map Tree.shape = other.finished.map Tree.shape)
    (shape : first.shape = second.shape) :
    Alike (.error (failure.behind first)) (.error (other.behind second)) := by
  refine .error ?_
  rw [Failure.behind, Failure.behind, List.map_cons, List.map_cons, shape, finished]

/-- A reader for which a backslash that makes no difference does make none. -/
def Overlooks (reader : Reader) : Prop :=
  ∀ ⦃plain marked : List Char⦄, Near plain marked → Alike (reader plain) (reader marked)

variable {inside further : Reader} {plain marked : List Char}

theorem overlooks_refuse : Overlooks refuse :=
  fun _ _ _ => .error rfl

theorem base_of_failed {failure : Failure} (failed : inside plain = .error failure) :
    base inside ('(' :: plain) = .error failure := by
  simp only [base, failed]

theorem base_of_closed {tree : Tree} {rest : List Char}
    (read : inside plain = .ok (tree, ')' :: rest)) :
    base inside ('(' :: plain) = .ok (.group tree, rest) := by
  simp only [base, read]

theorem base_of_unclosed {tree : Tree} {rest : List Char}
    (read : inside plain = .ok (tree, rest)) (unclosed : rest.head? ≠ some ')') :
    base inside ('(' :: plain) =
      .error { complaint := .expected ")", rest, finished := [tree] } := by
  rw [base, read]
  split
  · cases ‹_›
  · rename_i same
    cases same
    exact absurd rfl unclosed
  · rename_i same
    cases same
    rfl

theorem alternatives_of_failed {failure : Failure} (failed : term inside plain = .error failure) :
    alternatives inside further plain = .error failure := by
  simp only [alternatives, failed]

theorem alternatives_of_bar_failed {first : Tree} {rest : List Char} {failure : Failure}
    (read : term inside plain = .ok (first, '|' :: rest))
    (failed : further rest = .error failure) :
    alternatives inside further plain = .error (failure.behind first) := by
  simp only [alternatives, read, failed]

/-- A group is closed with and without the backslash or is not closed either way. -/
theorem alike_base_group (alike : Alike (inside plain) (inside marked)) :
    Alike (base inside ('(' :: plain)) (base inside ('(' :: marked)) := by
  obtain ⟨first, second, rest, restMarked, read, readMarked, shape, near⟩ |
    ⟨first, second, failed, failedMarked, finished⟩ := alike.cases
  · obtain ⟨later, laterMarked, rfl, rfl, behind⟩ | ⟨unclosed, unclosedMarked⟩ :=
      near.front_cases ')' (by decide) (by decide)
    · rw [base_of_closed read, base_of_closed readMarked]
      exact .ok shape behind
    · rw [base_of_unclosed read unclosed, base_of_unclosed readMarked unclosedMarked]
      exact .error (congrArg (fun shape => [shape]) shape)
  · rw [base_of_failed failed, base_of_failed failedMarked]
    exact .error finished

theorem overlooks_base (overlooks : Overlooks inside) : Overlooks (base inside) := by
  intro plain marked near
  obtain rfl | marked := near
  · exact .refl _
  · cases marked with
    | @here character ordinary behind =>
        have notOpen : character ≠ '(' := fun same => nomatch same ▸ ordinary
        have notEscape : character ≠ '\\' := fun same => nomatch same ▸ ordinary
        rw [base_of_plain notOpen notEscape]
        exact .ok rfl (.inl rfl)
    | escaped next marked => exact .ok rfl (.inr marked)
    | @next next unescaping plain marked rest =>
        by_cases opens : next = '('
        · subst opens
          exact alike_base_group (overlooks (.inr rest))
        · rw [base_of_plain opens unescaping, base_of_plain opens unescaping]
          exact .ok rfl (.inr rest)

/-- The same stars are put on trees of the same shape. -/
theorem alike_stars {first second : Tree} (shape : first.shape = second.shape)
    (near : Near plain marked) : Alike (.ok (stars first plain)) (.ok (stars second marked)) := by
  induction plain generalizing first second marked with
  | nil =>
      obtain ⟨_, _, front, _⟩ | ⟨_, apartMarked⟩ :=
        near.front_cases '*' (by decide) (by decide)
      · cases front
      · rw [stars_of_head? apartMarked]
        exact .ok shape near
  | cons character plain ih =>
      obtain ⟨rest, restMarked, front, rfl, near⟩ | ⟨apart, apartMarked⟩ :=
        near.front_cases '*' (by decide) (by decide)
      · cases front
        rw [stars, stars]
        exact ih (by rw [Tree.shape, Tree.shape, shape]) near
      · rw [stars_of_head? apart, stars_of_head? apartMarked]
        exact .ok shape near

theorem overlooks_factor (overlooks : Overlooks inside) : Overlooks (factor inside) := by
  intro plain marked near
  obtain ⟨first, second, rest, restMarked, read, readMarked, shape, near⟩ |
    ⟨first, second, failed, failedMarked, finished⟩ := (overlooks_base overlooks near).cases
  · rw [factor, factor, read, readMarked]
    exact alike_stars shape near
  · rw [factor, factor, failed, failedMarked]
    exact .error finished

theorem alike_allFactors (faithful : Faithful inside) (overlooks : Overlooks inside)
    {before beforeMarked : Tree} (shape : before.shape = beforeMarked.shape)
    (near : Near plain marked) :
    Alike (allFactors inside before plain) (allFactors inside beforeMarked marked) := by
  induction size : plain.length using Nat.strongRecOn
    generalizing before beforeMarked plain marked with
  | ind size shorter =>
      rw [allFactors_eq faithful, allFactors_eq faithful, near.endsTerm_eq]
      split
      · exact .ok shape near
      · obtain ⟨first, second, rest, restMarked, read, readMarked, shapeNext, near⟩ |
          ⟨first, second, failed, failedMarked, finished⟩ :=
            (overlooks_factor overlooks near).cases
        · have less : rest.length < plain.length :=
            length_lt_of_read (faithful_factor faithful) read
          have joined : (Tree.concat before first).shape =
              (Tree.concat beforeMarked second).shape := by
            rw [Tree.shape, Tree.shape, shape, shapeNext]
          rw [read, readMarked]
          exact shorter _ (size ▸ less) joined near rfl
        · rw [failed, failedMarked]
          exact alike_behind finished shape

theorem overlooks_term (faithful : Faithful inside) (overlooks : Overlooks inside) :
    Overlooks (term inside) := by
  intro plain marked near
  rw [term, term, near.endsTerm_eq]
  split
  · exact .error rfl
  · obtain ⟨first, second, rest, restMarked, read, readMarked, shape, near⟩ |
      ⟨first, second, failed, failedMarked, finished⟩ := (overlooks_factor overlooks near).cases
    · rw [read, readMarked]
      exact alike_allFactors faithful overlooks shape near
    · rw [failed, failedMarked]
      exact .error finished

theorem overlooks_alternatives (faithful : Faithful inside) (overlooks : Overlooks inside)
    (overlooksFurther : Overlooks further) : Overlooks (alternatives inside further) := by
  intro plain marked near
  obtain ⟨first, second, rest, restMarked, read, readMarked, shape, near⟩ |
    ⟨first, second, failed, failedMarked, finished⟩ :=
      (overlooks_term faithful overlooks near).cases
  · obtain ⟨later, laterMarked, rfl, rfl, behind⟩ | ⟨apart, apartMarked⟩ :=
      near.front_cases '|' (by decide) (by decide)
    · obtain ⟨third, fourth, _, _, readFurther, readFurtherMarked, shapeFurther, near⟩ |
        ⟨third, fourth, failed, failedMarked, finished⟩ := (overlooksFurther behind).cases
      · rw [alternatives_of_bar read readFurther, alternatives_of_bar readMarked readFurtherMarked]
        exact .ok (by simp only [Tree.shape, shape, shapeFurther]) near
      · rw [alternatives_of_bar_failed read failed,
          alternatives_of_bar_failed readMarked failedMarked]
        exact alike_behind finished shape
    · rw [alternatives_of_noBar read apart, alternatives_of_noBar readMarked apartMarked]
      exact .ok shape near
  · rw [alternatives_of_failed failed, alternatives_of_failed failedMarked]
    exact .error finished

/-- **A backslash before an ordinary character makes no difference** to what a regex is. -/
theorem overlooks_regex (frames : Nat) : Overlooks (regex frames) :=
  regex_induction overlooks_refuse
    (fun frames => overlooks_alternatives (faithful_inside frames)) frames

theorem whole_of_left {reader : Reader} {pattern rest : List Char} {tree : Tree} {next : Char}
    (read : reader pattern = .ok (tree, next :: rest)) :
    whole reader pattern =
      .error { complaint := .unread next, rest := next :: rest, finished := [tree] } := by
  simp only [whole, read]

theorem whole_of_failed {reader : Reader} {pattern : List Char} {failure : Failure}
    (failed : reader pattern = .error failure) : whole reader pattern = .error failure := by
  simp only [whole, failed]

end Reader

/-- What is read with a backslash that makes no difference has the same shape, and so has what is
finished where reading fails. -/
theorem readPattern_alike {plain marked : List Char} (near : Near plain marked) :
    (∃ tree other, readPattern plain = .ok tree ∧ readPattern marked = .ok other ∧
        tree.shape = other.shape) ∨
      ∃ failure other, readPattern plain = .error failure ∧ readPattern marked = .error other ∧
        failure.finished.map Tree.shape = other.finished.map Tree.shape := by
  rw [readPattern_eq_whole]
  obtain ⟨first, second, rest, restMarked, read, readMarked, shape, near⟩ |
    ⟨first, second, failed, failedMarked, finished⟩ :=
      (Reader.overlooks_regex frameBound near).cases
  · cases rest with
    | nil =>
        cases near.eq_nil_iff.mp rfl
        exact .inl ⟨first, second, Reader.whole_of_ok read, Reader.whole_of_ok readMarked, shape⟩
    | cons next rest =>
        obtain ⟨nextMarked, restMarked, rfl⟩ :=
          List.exists_cons_of_ne_nil (near.eq_nil_iff.not.mp nofun)
        exact .inr ⟨_, _, Reader.whole_of_left read, Reader.whole_of_left readMarked,
          congrArg (fun shape => [shape]) shape⟩
  · exact .inr ⟨first, second, Reader.whole_of_failed failed, Reader.whole_of_failed failedMarked,
      finished⟩

end PatternAutomata
