import PatternAutomata.Proofs.Pattern.Depth
import PatternAutomata.Proofs.Pattern.Nesting

/-! # Where reading fails

Reading fails as late as can be: what lies before the place of a failure is the beginning of
a derivation (`Failure.Breaks`), so it can be completed to a pattern that has a parse tree.
It also fails as early as can be: no pattern that goes on with the character at the place has
one (`readPattern_error_place`). The only text that is ever found missing is the parenthesis
that closes a group, and it is missing only at the end.

Reading is refused at the first place where the text before it takes up more frames than there
are (`Failure.Accounts`). All other failures are found at the end, or at a character
with which no term can begin.
-/

namespace PatternAutomata

/-- The frames at a failure: they do for a derivation that what lies before its place can be
completed to, or, if reading was refused for want of them, its place is the first before which
they do not do. -/
def Failure.Accounts (failure : Failure) (around bound : Nat) (front : List Char)
    (tree : Tree) : Prop :=
  if failure.complaint = .tooDeep then
    ∀ bars outer, (⟨false, bars, outer⟩ : Scan).Passes front around bound
  else tree.frames + around ≤ bound

/-- A failure breaks off a derivation of a part of the grammar: what lies before its place
can be completed to one, a text is found missing at the end only, and what is left, if
reading was not refused, begins no term. -/
structure Failure.Breaks (failure : Failure) (rule : Rule) (around bound : Nat)
    (ahead : List Char) : Prop where
  completed : ∃ front later, ∃ tree : Tree, ahead = front ++ failure.rest ∧ tree.Fits rule ∧
    tree.text = front ++ later ∧ failure.Accounts around bound front tree
  missing : ∀ text, failure.complaint = .expected text → failure.rest = []
  stops : failure.complaint ≠ .tooDeep → Reader.endsTerm failure.rest = true

namespace Failure.Accounts

variable {failure : Failure} {bound : Nat} {front : List Char} {inner first second : Tree}

theorem group (accounts : failure.Accounts 4 bound front inner) :
    failure.Accounts 0 bound ('(' :: front) (.group inner) := by
  unfold Accounts at accounts ⊢
  split
  · rename_i deep
    rw [if_pos deep] at accounts
    exact fun bars outer => (accounts 0 (bars :: outer)).cons (Scan.step_open bars outer)
      (Scan.frames_open bars outer false false)
  · rename_i shallow
    rw [if_neg shallow] at accounts
    exact accounts

theorem behind (accounts : failure.Accounts 0 bound front second) (fits : first.Fits .term)
    (suffice : first.frames ≤ bound) :
    (failure.behind first).Accounts 0 bound (first.text ++ front) (.concat first second) := by
  change failure.Accounts 0 bound (first.text ++ front) (.concat first second)
  unfold Accounts at accounts ⊢
  split
  · rename_i deep
    rw [if_pos deep] at accounts
    exact fun bars outer => Tree.passes_behind (accounts bars outer) fits (by decide) suffice
  · rename_i shallow
    rw [if_neg shallow] at accounts
    exact Nat.max_le.mpr ⟨suffice, accounts⟩

theorem alt (accounts : failure.Accounts 1 bound front second) (fits : first.Fits .term)
    (suffice : first.frames ≤ bound) :
    (failure.behind first).Accounts 0 bound (first.text ++ '|' :: front) (.alt first second) := by
  change failure.Accounts 0 bound (first.text ++ '|' :: front) (.alt first second)
  unfold Accounts at accounts ⊢
  split
  · rename_i deep
    rw [if_pos deep] at accounts
    intro bars outer
    have later := (accounts (bars + 1) outer).cons (Scan.step_bar bars outer)
      (Scan.frames_bar bars outer false false)
    exact Tree.passes_behind later fits (by decide) suffice
  · rename_i shallow
    rw [if_neg shallow] at accounts
    exact Nat.max_le.mpr ⟨suffice, accounts⟩

theorem shift {tree : Tree} (accounts : failure.Accounts 0 bound front tree) (more : Nat) :
    failure.Accounts more (bound + more) front tree := by
  unfold Accounts at accounts ⊢
  split
  · rename_i deep
    rw [if_pos deep] at accounts
    exact fun bars outer => (accounts bars outer).shift more
  · rename_i shallow
    rw [if_neg shallow] at accounts
    exact Nat.add_le_add_right accounts more

end Failure.Accounts

namespace Failure.Breaks

variable {failure : Failure} {rule part : Rule} {around bound : Nat} {ahead : List Char}

/-- What breaks off a part breaks off all that the part makes up by itself. -/
theorem widen (breaks : failure.Breaks part around bound ahead)
    (includes : ∀ ⦃tree : Tree⦄, tree.Fits part → tree.Fits rule) :
    failure.Breaks rule around bound ahead := by
  obtain ⟨⟨front, later, tree, begins, fits, spelled, accounts⟩, missing, stops⟩ := breaks
  exact ⟨⟨front, later, tree, begins, includes fits, spelled, accounts⟩, missing, stops⟩

/-- What breaks off breaks off as well with more frames around it and as many more in all. -/
theorem shift (breaks : failure.Breaks rule 0 bound ahead) (more : Nat) :
    failure.Breaks rule more (bound + more) ahead := by
  obtain ⟨⟨front, later, tree, begins, fits, spelled, accounts⟩, missing, stops⟩ := breaks
  exact ⟨⟨front, later, tree, begins, fits, spelled, accounts.shift more⟩, missing, stops⟩

end Failure.Breaks

namespace Reader

/-- A reader whose failures break off derivations of one part of the grammar. -/
def Breaks (reader : Reader) (rule : Rule) (around bound : Nat) : Prop :=
  ∀ ⦃ahead : List Char⦄ ⦃failure : Failure⦄, reader ahead = .error failure →
    failure.Breaks rule around bound ahead

/-- What reading a group relies on, with the given number of frames around it. -/
structure Groups (inside : Reader) (bound : Nat) : Prop where
  breaks : Breaks inside .regex 4 bound
  nests : Nests inside 4 bound
  derives : Derives inside .regex
  faithful : Faithful inside
  closes : Closes inside

variable {inside further : Reader} {ahead rest : List Char} {tree before : Tree}
  {failure : Failure} {bound : Nat}

/-- A plain character, for where any will do. -/
theorem fits_letter : (Tree.literal 'a').Fits .base :=
  .literal (by decide)

theorem breaks_refuse {around : Nat} (few : bound < around) :
    Breaks refuse .regex around bound := by
  intro ahead failure failed
  cases failed
  refine ⟨⟨[], ['a'], .literal 'a', rfl, .ofTerm (.ofFactor (.ofBase fits_letter)), rfl, ?_⟩,
    nofun, fun shallow => absurd rfl shallow⟩
  exact fun bars outer => .ofFew few

theorem breaks_base (groups : Groups inside bound) : Breaks (base inside) .base 0 bound := by
  intro ahead failure failed
  unfold base at failed
  split at failed
  · cases failed
    exact ⟨⟨[], ['a'], .literal 'a', rfl, fits_letter, rfl, Nat.zero_le _⟩, nofun, fun _ => rfl⟩
  · split at failed
    · rename_i failedInner
      cases failed
      obtain ⟨⟨front, later, inner, rfl, fits, spelled, accounts⟩, missing, stops⟩ :=
        groups.breaks failedInner
      refine ⟨⟨'(' :: front, later ++ [')'], .group inner, rfl, .group fits, ?_, accounts.group⟩,
        missing, stops⟩
      rw [Tree.text, spelled, List.cons_append, List.cons_append, List.append_assoc]
    · cases failed
    · rename_i inner rest notClosed readInner
      cases failed
      have ended : rest = [] := by
        rcases groups.closes readInner with ended | closed
        · exact ended
        · obtain ⟨others, rfl⟩ := List.head?_eq_some_iff.mp closed
          exact absurd rfl (notClosed others)
      refine ⟨⟨'(' :: inner.text, [')'], .group inner, ?_, .group (groups.derives readInner), rfl,
        groups.nests readInner⟩, fun _ _ => ended, fun _ => ?_⟩
      · rw [groups.faithful readInner, List.cons_append]
      · rw [ended]
        rfl
  · cases failed
    exact ⟨⟨['\\'], ['a'], .escaped 'a', rfl, .escaped, rfl, Nat.zero_le _⟩, nofun, fun _ => rfl⟩
  · cases failed
  · cases failed

/-- A base that fails where it may begin has taken a character. -/
theorem length_lt_of_base_failed (groups : Groups inside bound)
    (goesOn : ¬ endsTerm ahead = true) (failed : base inside ahead = .error failure) :
    failure.rest.length < ahead.length := by
  unfold base at failed
  split at failed
  · exact absurd rfl goesOn
  · split at failed
    · rename_i failedInner
      cases failed
      obtain ⟨front, _, _, rfl, _⟩ := (groups.breaks failedInner).completed
      rw [List.length_cons, List.length_append]
      omega
    · cases failed
    · rename_i readInner
      cases failed
      exact Nat.lt_succ_of_lt (length_lt_of_read groups.faithful readInner)
  · cases failed
    exact Nat.zero_lt_one
  · cases failed
  · cases failed

theorem base_of_factor_error (failed : factor inside ahead = .error failure) :
    base inside ahead = .error failure := by
  unfold factor at failed
  split at failed
  · rename_i failedBase
    cases failed
    exact failedBase
  · cases failed

theorem breaks_factor (groups : Groups inside bound) :
    Breaks (factor inside) .factor 0 bound := by
  intro ahead failure failed
  exact (breaks_base groups (base_of_factor_error failed)).widen fun _ => .ofBase

/-- A factor that fails behind a term breaks off a longer term: it has taken its first
character, so what completes it begins with that one, which is no star. -/
theorem breaks_behind (groups : Groups inside bound) (goesOn : ¬ endsTerm ahead = true)
    (fits : before.Fits .term) (suffice : before.frames ≤ bound) (apart : ahead.head? ≠ some '*')
    (failed : factor inside ahead = .error failure) :
    (failure.behind before).Breaks .term 0 bound (before.text ++ ahead) := by
  have shorter := length_lt_of_base_failed groups goesOn (base_of_factor_error failed)
  obtain ⟨⟨front, later, second, begins, secondFits, spelled, accounts⟩, missing, stops⟩ :=
    breaks_factor groups failed
  refine ⟨⟨before.text ++ front, later, .concat before second, ?_, .concat fits secondFits ?_, ?_,
    accounts.behind fits suffice⟩, missing, stops⟩
  · rw [begins, List.append_assoc]
    rfl
  · cases front with
    | nil => exact absurd shorter (by rw [begins]; exact Nat.lt_irrefl _)
    | cons character front =>
        rw [spelled]
        rw [begins] at apart
        exact apart
  · rw [Tree.text, spelled, List.append_assoc]

theorem breaks_allFactors (groups : Groups inside bound) (fits : before.Fits .term)
    (suffice : before.frames ≤ bound) (apart : ahead.head? ≠ some '*')
    (failed : allFactors inside before ahead = .error failure) :
    failure.Breaks .term 0 bound (before.text ++ ahead) := by
  refine allFactors_induction groups.faithful (motive := fun before ahead result =>
    before.Fits .term → before.frames ≤ bound → ahead.head? ≠ some '*' →
      result = .error failure → failure.Breaks .term 0 bound (before.text ++ ahead)) ?_ ?_ ?_
    before ahead fits suffice apart failed
  · intro before ahead _ _ _ _ same
    cases same
  · intro before ahead failure goesOn failedFactor fits suffice apart same
    cases same
    exact breaks_behind groups goesOn fits suffice apart failedFactor
  · intro before ahead next after goesOn readFactor result later fits suffice apart same
    obtain ⟨nextFits, nextApart⟩ :=
      fits_factor groups.derives (Bool.not_eq_true _ ▸ goesOn) readFactor
    have begins : next.text.head? ≠ some '*' := by
      rw [head?_text_of_factor groups.faithful readFactor]
      exact apart
    have nextSuffice := nests_factor groups.nests readFactor
    have broken := later (.concat fits nextFits begins) (Nat.max_le.mpr ⟨suffice, nextSuffice⟩)
      nextApart same
    rw [Tree.text, List.append_assoc, ← faithful_factor groups.faithful readFactor] at broken
    exact broken

theorem breaks_term (groups : Groups inside bound) : Breaks (term inside) .term 0 bound := by
  intro ahead failure failed
  unfold term at failed
  split at failed
  · rename_i ends
    cases failed
    exact ⟨⟨[], ['a'], .literal 'a', rfl, .ofFactor (.ofBase fits_letter), rfl, Nat.zero_le _⟩,
      nofun, fun _ => ends⟩
  · rename_i goesOn
    split at failed
    · rename_i failedFactor
      cases failed
      exact (breaks_factor groups failedFactor).widen fun _ => .ofFactor
    · rename_i first after readFactor
      obtain ⟨fits, apart⟩ := fits_factor groups.derives (Bool.not_eq_true _ ▸ goesOn) readFactor
      rw [faithful_factor groups.faithful readFactor]
      exact breaks_allFactors groups (.ofFactor fits) (nests_factor groups.nests readFactor) apart
        failed

theorem breaks_alternatives (groups : Groups inside bound)
    (breaksFurther : Breaks further .regex 1 bound) :
    Breaks (alternatives inside further) .regex 0 bound := by
  intro ahead failure failed
  unfold alternatives at failed
  split at failed
  · rename_i failedTerm
    cases failed
    exact (breaks_term groups failedTerm).widen fun _ => .ofTerm
  · rename_i first behind readTerm
    split at failed
    · rename_i failedFurther
      cases failed
      have firstFits := derives_term groups.derives groups.faithful readTerm
      have suffice := nests_term groups.nests groups.faithful readTerm
      obtain ⟨⟨front, later, second, begins, fits, spelled, accounts⟩, missing, stops⟩ :=
        breaksFurther failedFurther
      refine ⟨⟨first.text ++ '|' :: front, later, .alt first second, ?_, .alt firstFits fits, ?_,
        accounts.alt firstFits suffice⟩, missing, stops⟩
      · rw [faithful_term groups.faithful readTerm, begins, List.append_assoc]
        rfl
      · rw [Tree.text, spelled, List.append_assoc, List.cons_append]
    · cases failed
  · cases failed

theorem groups_inGroup {frames : Nat}
    (smaller : ∀ fewer, fewer < frames → Breaks (regex fewer) .regex 0 fewer) :
    Groups (inGroup frames) frames where
  breaks :=
    match frames with
    | 0 | 1 | 2 | 3 => breaks_refuse (by omega)
    | frames + 4 => fun _ _ failed => (smaller frames (by omega) failed).shift 4
  nests := nests_inGroup fun fewer _ => nests_regex fewer
  derives := derives_inGroup fun fewer _ => derives_regex fewer
  faithful := faithful_inside frames
  closes := inGroup_of_regex closes_refuse fun fewer _ => closes_regex fewer

theorem breaks_behindBar {frames : Nat}
    (smaller : ∀ fewer, fewer < frames → Breaks (regex fewer) .regex 0 fewer) :
    Breaks (behindBar frames) .regex 1 frames :=
  match frames with
  | 0 => breaks_refuse Nat.zero_lt_one
  | frames + 1 => fun _ _ failed => (smaller frames (Nat.lt_succ_self frames) failed).shift 1

/-- A regex fails where a derivation breaks off, or where one takes up more frames than
there are. -/
theorem breaks_regex (frames : Nat) : Breaks (regex frames) .regex 0 frames := by
  induction frames using Nat.strongRecOn with
  | ind frames smaller =>
      rw [regex_eq]
      exact breaks_alternatives (groups_inGroup smaller) (breaks_behindBar smaller)

end Reader

/-- A pattern that cannot be read breaks off a parse tree. -/
theorem breaks_of_whole_error {frames : Nat} {pattern : List Char} {failure : Failure}
    (failed : Reader.whole (Reader.regex frames) pattern = .error failure) :
    failure.Breaks .regex 0 frames pattern := by
  unfold Reader.whole at failed
  split at failed
  · rename_i failedRegex
    cases failed
    exact Reader.breaks_regex frames failedRegex
  · cases failed
  · rename_i tree next rest readRegex
    cases failed
    refine ⟨⟨tree.text, [], tree, Reader.faithful_regex frames readRegex,
      Reader.derives_regex frames readRegex, (List.append_nil _).symm,
      Reader.nests_regex frames readRegex⟩, nofun, fun _ => ?_⟩
    rcases Reader.closes_regex frames readRegex with ended | closed
    · cases ended
    · cases closed
      rfl

theorem breaks_of_readPattern_error {pattern : List Char} {failure : Failure}
    (failed : readPattern pattern = .error failure) :
    failure.Breaks .regex 0 frameBound pattern :=
  breaks_of_whole_error failed

/-- **The place of a failure.** What lies before it can be completed to a pattern that has a
parse tree, what goes on with the character at the place cannot, and every pattern that
begins with both fails there as well. -/
theorem readPattern_error_place {pattern : List Char} {failure : Failure}
    (failed : readPattern pattern = .error failure) (shallow : failure.complaint ≠ .tooDeep) :
    ∃ front, pattern = front ++ failure.rest ∧
      (∃ later, ∃ tree : Tree, tree.Parses (front ++ later)) ∧
      ∀ ⦃later : List Char⦄, later.head? = failure.rest.head? →
        (∀ tree : Tree, ¬ tree.Parses (front ++ later)) ∧
          readPattern (front ++ later) = .error { failure with rest := later } := by
  obtain ⟨front, later, tree, begins, fits, spelled, _⟩ :=
    (breaks_of_readPattern_error failed).completed
  obtain ⟨front₁, begins₁, never⟩ := not_parses_of_whole_error failed shallow
  obtain ⟨front₂, begins₂, again⟩ :=
    Reader.fails_whole (Reader.foresees_regex (Nat.le_refl frameBound)) failed shallow
  cases List.append_cancel_right (begins.symm.trans begins₁)
  cases List.append_cancel_right (begins.symm.trans begins₂)
  exact ⟨front, begins, ⟨later, tree, fits, spelled⟩, fun later same => ⟨never same, again same⟩⟩

end PatternAutomata
