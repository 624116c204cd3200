import PatternAutomata.Proofs.Pattern.Unambiguity

/-! # How far readers look

A term is read up to where a term ends, and a regex up to the end or a closing
parenthesis (`Reader.closes_regex`). A reader looks no further than the first character
that it leaves: what lies behind that character has no influence, and neither has the
number of frames, unless there are too few (`Reader.Foresees`). So what a reader gives for a
pattern it gives for all patterns that share the characters up to there.
-/

namespace PatternAutomata

namespace Reader

variable {inside further richer richerFurther : Reader} {ahead rest : List Char}
  {tree before : Tree}

theorem length_lt_of_read {reader : Reader} (faithful : Faithful reader)
    (read : reader ahead = .ok (tree, rest)) : rest.length < ahead.length := by
  have long : 0 < tree.text.length := List.length_pos_iff.mpr tree.text_ne_nil
  rw [faithful read, List.length_append]
  omega

section Frames

/-- What holds of refusing and of every regex holds of what stands in a group. -/
theorem inGroup_of_regex {motive : Reader → Prop} (refused : motive refuse) {frames : Nat}
    (smaller : ∀ fewer, fewer < frames → motive (regex fewer)) : motive (inGroup frames) := by
  unfold inGroup
  split
  · exact smaller _ (by omega)
  · exact refused

theorem behindBar_of_regex {motive : Reader → Prop} (refused : motive refuse) {frames : Nat}
    (smaller : ∀ fewer, fewer < frames → motive (regex fewer)) : motive (behindBar frames) := by
  unfold behindBar
  split
  · exact smaller _ (by omega)
  · exact refused

/-- What holds of refusing, and of alternatives whose parts it holds of, holds of every
regex. -/
theorem regex_induction {motive : Reader → Prop} (refused : motive refuse)
    (joined : ∀ frames, motive (inGroup frames) → motive (behindBar frames) →
      motive (alternatives (inGroup frames) (behindBar frames))) (frames : Nat) :
    motive (regex frames) := by
  induction frames using Nat.strongRecOn with
  | ind frames smaller =>
      rw [regex_eq]
      exact joined frames (inGroup_of_regex refused smaller) (behindBar_of_regex refused smaller)

theorem faithful_inside (frames : Nat) : Faithful (inGroup frames) :=
  faithful_inGroup fun fewer _ => faithful_regex fewer

end Frames

section Results

/-- What a reader gives. -/
abbrev Result := Except Failure (Tree × List Char)

/-- The characters that are left. -/
def left : Result → List Char
  | .ok (_, rest) => rest
  | .error failure => failure.rest

/-- The same result with other characters left. -/
def leaving (later : List Char) : Result → Result
  | .ok (tree, _) => .ok (tree, later)
  | .error failure => .error { failure with rest := later }

/-- Reading was refused for want of frames. -/
def Refused (result : Result) : Prop :=
  ∃ failure, result = .error failure ∧ failure.complaint = .tooDeep

theorem not_refused_ok (value : Tree × List Char) : ¬ Refused (.ok value) := by
  rintro ⟨_, same, _⟩
  cases same

theorem refused_error {failure : Failure} :
    Refused (.error failure) ↔ failure.complaint = .tooDeep := by
  constructor
  · rintro ⟨_, same, deep⟩
    cases same
    exact deep
  · exact fun deep => ⟨failure, rfl, deep⟩

theorem refused_behind {failure : Failure} {before : Tree} :
    Refused (.error (failure.behind before)) ↔ Refused (.error failure) := by
  rw [refused_error, refused_error]
  rfl

end Results

section Factors

theorem factors_congr (faithful : Faithful inside) {steps more : Nat}
    (enough : ahead.length ≤ steps) (enoughMore : ahead.length ≤ more) (before : Tree) :
    factors inside steps before ahead = factors inside more before ahead := by
  induction steps generalizing more ahead before with
  | zero =>
      cases List.eq_nil_of_length_eq_zero (Nat.le_zero.mp enough)
      rw [factors_of_endsTerm rfl, factors_of_endsTerm rfl]
  | succ steps ih =>
      cases more with
      | zero =>
          cases List.eq_nil_of_length_eq_zero (Nat.le_zero.mp enoughMore)
          rw [factors_of_endsTerm rfl, factors_of_endsTerm rfl]
      | succ more =>
          unfold factors
          split
          · rfl
          · split
            · rfl
            · rename_i next after readFactor
              have shorter := length_lt_of_read (faithful_factor faithful) readFactor
              exact ih (by omega) (by omega) _

/-- Reads all the factors up to the end of a term and puts them behind a tree. -/
def allFactors (inside : Reader) (before : Tree) : Reader := fun ahead =>
  factors inside ahead.length before ahead

/-- The factors are one factor and all the others, unless the term ends. -/
theorem allFactors_eq (faithful : Faithful inside) (before : Tree) (ahead : List Char) :
    allFactors inside before ahead =
      if endsTerm ahead then .ok (before, ahead)
      else
        match factor inside ahead with
        | .error failure => .error (failure.behind before)
        | .ok (tree, rest) => allFactors inside (.concat before tree) rest := by
  cases ahead with
  | nil => rfl
  | cons character characters =>
      unfold allFactors
      rw [List.length_cons, factors]
      cases readFactor : factor inside (character :: characters) with
      | error failure => rfl
      | ok value =>
          have shorter := length_lt_of_read (faithful_factor faithful) readFactor
          rw [List.length_cons, Nat.lt_succ_iff] at shorter
          simp only [factors_congr faithful shorter (Nat.le_refl _)]

/-- What holds of the end of a term, of a factor that fails, and of one factor before
others, holds of all the factors. -/
theorem allFactors_induction (faithful : Faithful inside)
    {motive : Tree → List Char → Result → Prop}
    (ended : ∀ before ahead, endsTerm ahead = true → motive before ahead (.ok (before, ahead)))
    (failed : ∀ before ahead failure, ¬ endsTerm ahead = true →
      factor inside ahead = .error failure →
        motive before ahead (.error (failure.behind before)))
    (further : ∀ before ahead next rest, ¬ endsTerm ahead = true →
      factor inside ahead = .ok (next, rest) →
        ∀ result, motive (.concat before next) rest result → motive before ahead result)
    (before : Tree) (ahead : List Char) :
    motive before ahead (allFactors inside before ahead) := by
  induction size : ahead.length using Nat.strongRecOn generalizing before ahead with
  | ind size shorter =>
      rw [allFactors_eq faithful]
      split
      · rename_i ends
        exact ended before ahead ends
      · rename_i goesOn
        split
        · rename_i failure failedFactor
          exact failed before ahead failure goesOn failedFactor
        · rename_i next rest readFactor
          have less := length_lt_of_read (faithful_factor faithful) readFactor
          exact further before ahead next rest goesOn readFactor _
            (shorter _ (size ▸ less) _ _ rfl)

end Factors

section Stopping

/-- Factors are read up to where the term ends. -/
theorem endsTerm_of_allFactors (faithful : Faithful inside)
    (read : allFactors inside before ahead = .ok (tree, rest)) : endsTerm rest = true := by
  refine allFactors_induction faithful (motive := fun _ _ result =>
    result = .ok (tree, rest) → endsTerm rest = true) ?_ ?_ ?_ before ahead read
  · intro before ahead ends same
    cases same
    exact ends
  · intro before ahead failure _ _ same
    cases same
  · intro before ahead next after _ _ result later
    exact later

theorem endsTerm_of_term (faithful : Faithful inside)
    (read : term inside ahead = .ok (tree, rest)) : endsTerm rest = true := by
  unfold term at read
  split at read
  · cases read
  · split at read
    · cases read
    · exact endsTerm_of_allFactors faithful read

/-- A reader that leaves nothing but what a closing parenthesis begins. -/
def Closes (reader : Reader) : Prop :=
  ∀ ⦃ahead : List Char⦄ ⦃tree : Tree⦄ ⦃rest : List Char⦄,
    reader ahead = .ok (tree, rest) → rest = [] ∨ rest.head? = some ')'

theorem closes_refuse : Closes refuse := by
  intro ahead tree rest read
  cases read

theorem closes_alternatives (faithful : Faithful inside) (closes : Closes further) :
    Closes (alternatives inside further) := by
  intro ahead tree rest read
  unfold alternatives at read
  split at read
  · cases read
  · split at read
    · cases read
    · rename_i readFurther
      cases read
      exact closes readFurther
  · rename_i first after notBar readTerm
    cases read
    have ends := endsTerm_of_term faithful readTerm
    cases rest with
    | nil => exact Or.inl rfl
    | cons next rest =>
        simp only [endsTerm, Bool.or_eq_true, decide_eq_true_eq] at ends
        rcases ends with rfl | rfl
        · exact Or.inr rfl
        · exact absurd rfl (notBar rest)

/-- A regex is read up to the end or a closing parenthesis. -/
theorem closes_regex (frames : Nat) : Closes (regex frames) :=
  regex_induction closes_refuse
    (fun frames _ further => closes_alternatives (faithful_inside frames) further) frames

end Stopping

/-- A reader gives one result, up to what is left, for all characters that begin like
these, up to the first that is left. -/
def Fixes (reader : Reader) (ahead : List Char) (result : Result) : Prop :=
  ∃ front, ahead = front ++ left result ∧ ∀ ⦃later : List Char⦄,
    later.head? = (left result).head? → reader (front ++ later) = leaving later result

/-- What one reader gives is fixed for another one by the characters up to the first that
is left; only a refusal need not be. -/
def Foresees (reader richer : Reader) : Prop :=
  ∀ ⦃ahead : List Char⦄ ⦃result : Result⦄, reader ahead = result → ¬ Refused result →
    richer.Fixes ahead result

section Foresight

theorem head?_append_congr {later : List Char} (same : later.head? = rest.head?)
    (front : List Char) : (front ++ later).head? = (front ++ rest).head? := by
  rw [List.head?_append, List.head?_append, same]

theorem endsTerm_congr {later : List Char} (same : later.head? = rest.head?) :
    endsTerm later = endsTerm rest := by
  cases later with
  | nil => rw [List.head?_eq_none_iff.mp same.symm]
  | cons next later =>
      obtain ⟨others, rfl⟩ := List.head?_eq_some_iff.mp same.symm
      rfl

theorem foresees_refuse (richer : Reader) : Foresees refuse richer := by
  rintro ahead _ rfl shallow
  exact absurd (refused_error.mpr rfl) shallow

/-- The closing parenthesis of a group is the first character that is left inside it. -/
theorem fixes_group (foresees : Foresees inside richer) {result : Result}
    (read : base inside ('(' :: ahead) = result) (shallow : ¬ Refused result) :
    (base richer).Fixes ('(' :: ahead) result := by
  rw [base] at read
  split at read
  · rename_i failure readInner
    cases read
    obtain ⟨front, rfl, again⟩ := foresees readInner shallow
    refine ⟨'(' :: front, rfl, fun later same => ?_⟩
    rw [List.cons_append]
    simp only [base, again same]
    rfl
  · rename_i tree rest readInner
    cases read
    obtain ⟨front, rfl, again⟩ := foresees readInner (not_refused_ok _)
    refine ⟨'(' :: (front ++ [')']), ?_, fun later same => ?_⟩
    · rw [List.cons_append, List.append_assoc]
      rfl
    · have readAgain : richer (front ++ ')' :: later) = .ok (tree, ')' :: later) := again rfl
      rw [List.cons_append, List.append_assoc, List.singleton_append]
      simp only [base, readAgain]
      rfl
  · rename_i tree rest notClosed readInner
    cases read
    obtain ⟨front, rfl, again⟩ := foresees readInner (not_refused_ok _)
    refine ⟨'(' :: front, rfl, fun later same => ?_⟩
    rw [List.cons_append]
    simp only [base, again same, leaving]
    split
    · cases ‹_›
    · rename_i closed
      cases closed
      obtain ⟨others, rfl⟩ := List.head?_eq_some_iff.mp same.symm
      exact absurd rfl (notClosed others)
    · rename_i readAgain
      cases readAgain
      rfl

theorem foresees_base (foresees : Foresees inside richer) :
    Foresees (base inside) (base richer) := by
  intro ahead result read shallow
  unfold base at read
  split at read
  · cases read
    refine ⟨[], rfl, fun later same => ?_⟩
    rw [List.head?_eq_none_iff.mp same]
    rfl
  · exact fixes_group foresees read shallow
  · cases read
    refine ⟨['\\'], rfl, fun later same => ?_⟩
    rw [List.head?_eq_none_iff.mp same]
    rfl
  · cases read
    exact ⟨['\\', _], rfl, fun later _ => rfl⟩
  · rename_i character rest notOpen notLast notEscape
    cases read
    refine ⟨[character], rfl, fun later _ => base_of_plain notOpen (fun same => ?_) later⟩
    cases rest with
    | nil => exact notLast same rfl
    | cons next rest => exact notEscape next rest same rfl

/-- All the stars in front are taken, whatever follows them. -/
theorem stars_append {taken : Tree} (took : stars tree ahead = (taken, rest)) :
    ∃ front, ahead = front ++ rest ∧ ∀ ⦃later : List Char⦄, later.head? = rest.head? →
      stars tree (front ++ later) = (taken, later) := by
  fun_induction stars tree ahead with
  | case1 tree ahead ih =>
      obtain ⟨front, rfl, again⟩ := ih took
      exact ⟨'*' :: front, rfl, fun later same => again same⟩
  | case2 tree ahead notStar =>
      cases took
      refine ⟨[], rfl, fun later same => stars_of_head? ?_ taken⟩
      intro starts
      obtain ⟨others, rfl⟩ := List.head?_eq_some_iff.mp (same.symm.trans starts)
      exact notStar others rfl

theorem foresees_factor (foresees : Foresees inside richer) :
    Foresees (factor inside) (factor richer) := by
  intro ahead result read shallow
  unfold factor at read
  split at read
  · rename_i readBase
    cases read
    obtain ⟨front, rfl, again⟩ := foresees_base foresees readBase shallow
    refine ⟨front, rfl, fun later same => ?_⟩
    simp only [factor, again same]
    rfl
  · rename_i plain after readBase
    cases read
    obtain ⟨front, rfl, again⟩ := foresees_base foresees readBase (not_refused_ok _)
    generalize took : stars plain after = outcome
    obtain ⟨tree, rest⟩ := outcome
    obtain ⟨taken, rfl, starsAgain⟩ := stars_append took
    refine ⟨front ++ taken, (List.append_assoc ..).symm, fun later same => ?_⟩
    rw [List.append_assoc]
    simp only [factor, again (head?_append_congr same taken), leaving, starsAgain same]

theorem not_endsTerm_append {front later : List Char} (goesOn : ¬ endsTerm (front ++ rest) = true)
    (same : later.head? = rest.head?) : ¬ endsTerm (front ++ later) = true := by
  rw [endsTerm_congr (head?_append_congr same front)]
  exact goesOn

/-- Factors are fixed as far as they are read, one after another. -/
theorem foresees_allFactors (foresees : Foresees inside richer) (faithful : Faithful inside)
    (faithfulRicher : Faithful richer) (before : Tree) :
    Foresees (allFactors inside before) (allFactors richer before) := by
  rintro ahead _ rfl
  refine allFactors_induction faithful (motive := fun before ahead result =>
    ¬ Refused result → (allFactors richer before).Fixes ahead result) ?_ ?_ ?_ before ahead
  · intro before ahead ends _
    refine ⟨[], rfl, fun later same => ?_⟩
    exact factors_of_endsTerm ((endsTerm_congr same).trans ends) _ before
  · intro before ahead failure goesOn failed shallow
    obtain ⟨front, rfl, again⟩ := foresees_factor foresees failed (mt refused_behind.mpr shallow)
    refine ⟨front, rfl, fun later same => ?_⟩
    rw [allFactors_eq faithfulRicher, if_neg (not_endsTerm_append goesOn same), again same]
    rfl
  · intro before ahead next after goesOn readFactor result fixes shallow
    obtain ⟨taken, rfl, factorAgain⟩ := foresees_factor foresees readFactor (not_refused_ok _)
    obtain ⟨front, rfl, again⟩ := fixes shallow
    refine ⟨taken ++ front, (List.append_assoc ..).symm, fun later same => ?_⟩
    have like := head?_append_congr same front
    rw [List.append_assoc, allFactors_eq faithfulRicher,
      if_neg (not_endsTerm_append goesOn like), factorAgain like]
    exact again same

theorem foresees_term (foresees : Foresees inside richer) (faithful : Faithful inside)
    (faithfulRicher : Faithful richer) : Foresees (term inside) (term richer) := by
  intro ahead result read shallow
  unfold term at read
  split at read
  · rename_i ends
    subst read
    refine ⟨[], rfl, fun later same => ?_⟩
    have endsAgain : endsTerm later = true := (endsTerm_congr same).trans ends
    rw [List.nil_append, term, if_pos endsAgain]
    rfl
  · rename_i goesOn
    split at read
    · rename_i failure failed
      subst read
      obtain ⟨front, rfl, again⟩ := foresees_factor foresees failed shallow
      refine ⟨front, rfl, fun later same => ?_⟩
      rw [term, if_neg (not_endsTerm_append goesOn same), again same]
      rfl
    · rename_i first after readFactor
      obtain ⟨taken, rfl, factorAgain⟩ :=
        foresees_factor foresees readFactor (not_refused_ok _)
      obtain ⟨front, rfl, again⟩ :=
        foresees_allFactors foresees faithful faithfulRicher first read shallow
      refine ⟨taken ++ front, (List.append_assoc ..).symm, fun later same => ?_⟩
      have like := head?_append_congr same front
      rw [List.append_assoc, term, if_neg (not_endsTerm_append goesOn like), factorAgain like]
      exact again same

theorem alternatives_of_noBar (read : term inside ahead = .ok (tree, rest))
    (noBar : rest.head? ≠ some '|') : alternatives inside further ahead = .ok (tree, rest) := by
  rw [alternatives, read]
  split
  · cases ‹_›
  · rename_i same
    cases same
    exact absurd rfl noBar
  · rename_i same
    cases same
    rfl

theorem foresees_alternatives (foresees : Foresees inside richer)
    (foreseesFurther : Foresees further richerFurther) (faithful : Faithful inside)
    (faithfulRicher : Faithful richer) :
    Foresees (alternatives inside further) (alternatives richer richerFurther) := by
  intro ahead result read shallow
  unfold alternatives at read
  split at read
  · rename_i failure failed
    subst read
    obtain ⟨front, begins, again⟩ :=
      foresees_term foresees faithful faithfulRicher failed shallow
    refine ⟨front, begins, fun later same => ?_⟩
    rw [alternatives, again same]
    rfl
  · rename_i first behind readTerm
    obtain ⟨taken, begins, termAgain⟩ :=
      foresees_term foresees faithful faithfulRicher readTerm (not_refused_ok _)
    have barAgain (later : List Char) :
        term richer (taken ++ '|' :: later) = .ok (first, '|' :: later) := termAgain rfl
    split at read
    · rename_i failure failed
      subst read
      obtain ⟨front, rfl, again⟩ := foreseesFurther failed (mt refused_behind.mpr shallow)
      refine ⟨taken ++ '|' :: front, ?_, fun later same => ?_⟩
      · rw [begins, List.append_assoc]
        rfl
      · rw [List.append_assoc, List.cons_append]
        simp only [alternatives, barAgain, again same]
        rfl
    · rename_i second rest readFurther
      subst read
      obtain ⟨front, rfl, again⟩ := foreseesFurther readFurther (not_refused_ok _)
      refine ⟨taken ++ '|' :: front, ?_, fun later same => ?_⟩
      · rw [begins, List.append_assoc]
        rfl
      · rw [List.append_assoc, List.cons_append]
        exact alternatives_of_bar (barAgain _) (again same)
  · rename_i first rest notBar readTerm
    subst read
    obtain ⟨front, begins, again⟩ :=
      foresees_term foresees faithful faithfulRicher readTerm (not_refused_ok _)
    refine ⟨front, begins, fun later same => ?_⟩
    refine alternatives_of_noBar (again same) fun bar => ?_
    obtain ⟨others, rfl⟩ := List.head?_eq_some_iff.mp (same.symm.trans bar)
    exact notBar others rfl

theorem foresees_inGroup {frames more : Nat} (le : frames ≤ more)
    (smaller : ∀ fewer, fewer < frames → ∀ {more}, fewer ≤ more →
      Foresees (regex fewer) (regex more)) : Foresees (inGroup frames) (inGroup more) := by
  match frames, more with
  | frames + 4, more + 4 => exact smaller frames (by omega) (by omega)
  | 0, _ | 1, _ | 2, _ | 3, _ => exact foresees_refuse _

theorem foresees_behindBar {frames more : Nat} (le : frames ≤ more)
    (smaller : ∀ fewer, fewer < frames → ∀ {more}, fewer ≤ more →
      Foresees (regex fewer) (regex more)) : Foresees (behindBar frames) (behindBar more) := by
  match frames, more with
  | frames + 1, more + 1 => exact smaller frames (by omega) (by omega)
  | 0, _ => exact foresees_refuse _

/-- **Readers look one character ahead.** A regex is read alike with more frames, and with
other characters behind the first that is left. -/
theorem foresees_regex {frames more : Nat} (le : frames ≤ more) :
    Foresees (regex frames) (regex more) := by
  induction frames using Nat.strongRecOn generalizing more with
  | ind frames smaller =>
      rw [regex_eq, regex_eq]
      exact foresees_alternatives (foresees_inGroup le smaller) (foresees_behindBar le smaller)
        (faithful_inside frames) (faithful_inside more)

end Foresight

/-- Reads a whole pattern, with nothing left over. -/
def whole (reader : Reader) (pattern : List Char) : Except Failure Tree :=
  match reader pattern with
  | .error failure => .error failure
  | .ok (tree, []) => .ok tree
  | .ok (tree, next :: rest) =>
      .error { complaint := .unread next, rest := next :: rest, finished := [tree] }

theorem whole_of_ok {reader : Reader} {pattern : List Char}
    (read : reader pattern = .ok (tree, [])) : whole reader pattern = .ok tree := by
  rw [whole, read]

theorem whole_of_error {reader : Reader} {pattern : List Char} {failure : Failure}
    (failed : reader pattern = .error failure) : whole reader pattern = .error failure := by
  rw [whole, failed]

theorem ok_of_whole {reader : Reader} {pattern : List Char}
    (read : whole reader pattern = .ok tree) : reader pattern = .ok (tree, []) := by
  unfold whole at read
  split at read
  · cases read
  · rename_i readAll
    cases read
    exact readAll
  · cases read

/-- A pattern that cannot be read cannot be read whatever follows the first character that
is left. -/
theorem fails_whole {reader : Reader} (foresees : Foresees reader richer) {pattern : List Char}
    {failure : Failure} (failed : whole reader pattern = .error failure)
    (shallow : failure.complaint ≠ .tooDeep) :
    ∃ front, pattern = front ++ failure.rest ∧ ∀ ⦃later : List Char⦄,
      later.head? = failure.rest.head? →
        whole richer (front ++ later) = .error { failure with rest := later } := by
  unfold whole at failed
  split at failed
  · rename_i failedRegex
    cases failed
    obtain ⟨front, rfl, again⟩ := foresees failedRegex (mt refused_error.mp shallow)
    refine ⟨front, rfl, fun later same => ?_⟩
    rw [whole, again same]
    rfl
  · cases failed
  · rename_i readRegex
    cases failed
    obtain ⟨front, rfl, again⟩ := foresees readRegex (not_refused_ok _)
    refine ⟨front, rfl, fun later same => ?_⟩
    obtain ⟨others, rfl⟩ := List.head?_eq_some_iff.mp same
    rw [whole, again same]
    rfl

end Reader

theorem readPattern_eq_whole : readPattern = Reader.whole (Reader.regex frameBound) := rfl

end PatternAutomata
