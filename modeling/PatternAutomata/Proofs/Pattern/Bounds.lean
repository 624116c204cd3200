import PatternAutomata.Proofs.Pattern.Refusal

/-! # Reading without a bound

No text takes up more than four frames for each of its characters, so a pattern is read as if
there were no bound with as many as that (`Reader.unbounded`), and the readers without a bound
make up the same grammar (`Reader.unbounded_eq`). Where there is a bound, a pattern is refused
exactly if a scan of it passes the bound somewhere up to where unbounded reading ends
(`Reader.refused_iff_passes`), and it is refused at the first such place
(`Reader.place_of_refusal`); where it is not refused, the bound makes no difference
(`Reader.whole_eq_unbounded`).
-/

namespace PatternAutomata

namespace Reader

variable {ahead pattern : List Char} {bound frames : Nat}

section Unbounded

/-- Reads a regex with frames enough for any pattern of the length. -/
def unbounded : Reader := fun ahead => regex (4 * ahead.length) ahead

theorem faithful_unbounded : Faithful unbounded := by
  intro ahead tree rest read
  exact faithful_regex _ read

theorem leaving_left (result : Result) : leaving (left result) result = result := by
  cases result <;> rfl

/-- A reader gives what it is foreseen to give. -/
theorem Foresees.eq {reader richer : Reader} (foresees : Foresees reader richer)
    (shallow : ¬ Refused (reader ahead)) : richer ahead = reader ahead := by
  obtain ⟨front, begins, again⟩ := foresees rfl shallow
  have same := again rfl
  rw [← begins, leaving_left] at same
  exact same

/-- A refusal takes a text that takes up more frames than there are, and none of its beginnings
does. -/
theorem passes_of_refusal {failure : Failure} (failed : regex frames ahead = .error failure)
    (deep : failure.complaint = .tooDeep) :
    ∃ front later, ahead = front ++ failure.rest ∧
      (∃ tree : Tree, tree.Parses (front ++ later)) ∧ frames < framesBehind front ∧
      ∀ place < front.length, framesBehind (front.take place) ≤ frames := by
  obtain ⟨front, later, tree, begins, fits, spelled, accounts⟩ :=
    (breaks_regex frames failed).completed
  rw [Failure.Accounts, if_pos deep] at accounts
  have none : (⟨false, 0, []⟩ : Scan).frames = 0 := rfl
  obtain ⟨behind, before⟩ := accounts 0 []
  simp only [none, Nat.zero_add, Nat.add_zero] at behind before
  exact ⟨front, later, begins, ⟨tree, fits, spelled⟩, behind, before⟩

theorem not_refused_of_le (enough : 4 * ahead.length ≤ frames) :
    ¬ Refused (regex frames ahead) := by
  rintro ⟨failure, failed, deep⟩
  obtain ⟨front, _, rfl, _, passed, _⟩ := passes_of_refusal failed deep
  have most := Scan.frames_pass_le {} front
  have none : ({} : Scan).frames = 0 := rfl
  rw [framesBehind] at passed
  rw [List.length_append] at enough
  omega

theorem regex_eq_unbounded_of_le (enough : 4 * ahead.length ≤ frames) :
    regex frames ahead = unbounded ahead :=
  (foresees_regex enough).eq (not_refused_of_le (Nat.le_refl _))

theorem not_refused_unbounded (ahead : List Char) : ¬ Refused (unbounded ahead) :=
  not_refused_of_le (Nat.le_refl _)

theorem foresees_unbounded (frames : Nat) : Foresees (regex frames) unbounded := by
  intro ahead result read shallow
  obtain ⟨front, begins, _⟩ := foresees_regex (Nat.le_refl frames) read shallow
  refine ⟨front, begins, fun later same => ?_⟩
  have enough := Nat.le_max_right frames (4 * (front ++ later).length)
  obtain ⟨front', begins', again⟩ :=
    foresees_regex (Nat.le_max_left frames (4 * (front ++ later).length)) read shallow
  cases List.append_cancel_right (begins.symm.trans begins')
  rw [← regex_eq_unbounded_of_le enough]
  exact again same

/-- **The grammar without a bound.** A regex is a term, in which groups are regexes, and a
regex after a bar. -/
theorem unbounded_eq : unbounded = alternatives unbounded unbounded := by
  funext ahead
  have enough : 4 * ahead.length ≤ 4 * ahead.length + 4 := Nat.le_add_right _ 4
  have joined : Foresees (regex (4 * ahead.length + 4)) (alternatives unbounded unbounded) := by
    rw [regex_eq]
    exact foresees_alternatives (foresees_unbounded _) (foresees_unbounded _)
      (faithful_regex _) faithful_unbounded
  rw [joined.eq (not_refused_of_le enough), regex_eq_unbounded_of_le enough]

end Unbounded

section Whole

theorem refused_whole_iff {reader : Reader} :
    (∃ failure, whole reader pattern = .error failure ∧ failure.complaint = .tooDeep) ↔
      Refused (reader pattern) := by
  constructor
  · rintro ⟨failure, failed, deep⟩
    unfold whole at failed
    split at failed
    · rename_i failedRegex
      cases failed
      exact ⟨failure, failedRegex, deep⟩
    · cases failed
    · cases failed
      cases deep
  · rintro ⟨failure, failed, deep⟩
    exact ⟨failure, whole_of_error failed, deep⟩

theorem whole_eq_unbounded (shallow : ¬ Refused (regex bound pattern)) :
    whole (regex bound) pattern = whole unbounded pattern := by
  rw [whole, whole, (foresees_unbounded bound).eq shallow]

/-- How far unbounded reading comes in a pattern: up to the first error, or else to the end. -/
def reach (pattern : List Char) : Nat :=
  match whole unbounded pattern with
  | .error failure => pattern.length - failure.rest.length
  | .ok _ => pattern.length

/-- What can be completed to a pattern that has a parse tree is read to its end. -/
theorem length_le_reach {front rest later : List Char} {tree : Tree}
    (parses : tree.Parses (front ++ later)) : front.length ≤ reach (front ++ rest) := by
  unfold reach
  split
  · rename_i failure failed
    have shallow : failure.complaint ≠ .tooDeep := fun deep =>
      not_refused_unbounded (front ++ rest) (refused_whole_iff.mp ⟨failure, failed, deep⟩)
    change whole (regex (4 * (front ++ rest).length)) _ = _ at failed
    obtain ⟨first, begins, never⟩ := not_parses_of_whole_error failed shallow
    rw [begins, List.length_append, Nat.add_sub_cancel]
    -- a failure further ahead would leave a beginning of what is completed
    apply Nat.le_of_not_lt
    intro short
    obtain ⟨mid, rfl, left⟩ : ∃ mid, front = first ++ mid ∧ failure.rest = mid ++ rest := by
      rcases List.append_eq_append_iff.mp begins with ⟨more, rfl, _⟩ | split
      · rw [List.length_append] at short
        omega
      · exact split
    cases mid with
    | nil => exact Nat.lt_irrefl _ (List.append_nil first ▸ short)
    | cons next mid =>
        have same : (next :: mid ++ later).head? = failure.rest.head? := by
          rw [left]
          rfl
        exact never same tree (List.append_assoc first _ later ▸ parses)
  · rw [List.length_append]
    exact Nat.le_add_right _ _

/-- Where reading is not refused, some tree for which the frames suffice has the text that
reading reaches for a beginning. -/
theorem exists_tree_of_not_refused (shallow : ¬ Refused (regex bound pattern)) :
    ∃ tree : Tree, tree.Fits .regex ∧ tree.frames ≤ bound ∧
      ∀ place ≤ reach pattern, pattern.take place = tree.text.take place := by
  have same := whole_eq_unbounded shallow
  unfold reach
  rw [← same]
  cases read : whole (regex bound) pattern with
  | ok tree =>
      have readRegex := ok_of_whole read
      refine ⟨tree, derives_regex bound readRegex, nests_regex bound readRegex, fun place _ => ?_⟩
      rw [faithful_regex bound readRegex, List.append_nil]
  | error failure =>
      have known : failure.complaint ≠ .tooDeep := fun deep =>
        shallow (refused_whole_iff.mp ⟨failure, read, deep⟩)
      obtain ⟨front, later, tree, begins, fits, spelled, accounts⟩ :=
        (breaks_of_whole_error read).completed
      rw [Failure.Accounts, if_neg known] at accounts
      refine ⟨tree, fits, accounts, fun place before => ?_⟩
      have within : place ≤ front.length := by
        simp only [begins, List.length_append, Nat.add_sub_cancel] at before
        exact before
      rw [begins, spelled, List.take_append_of_le_length within,
        List.take_append_of_le_length within]

/-- **When reading is refused**: if a scan passes the bound somewhere up to where unbounded
reading ends. -/
theorem refused_iff_passes :
    Refused (regex bound pattern) ↔
      ∃ place ≤ reach pattern, bound < framesBehind (pattern.take place) := by
  constructor
  · rintro ⟨failure, failed, deep⟩
    obtain ⟨front, later, rfl, ⟨tree, parses⟩, passed, _⟩ := passes_of_refusal failed deep
    refine ⟨front.length, length_le_reach parses, ?_⟩
    rw [List.take_left]
    exact passed
  · rintro ⟨place, reached, passed⟩
    refine Classical.byContradiction fun shallow => ?_
    obtain ⟨tree, fits, suffice, alike⟩ := exists_tree_of_not_refused shallow
    rw [alike place reached] at passed
    have most := Tree.within_text fits 0 [] place
    have none : (⟨false, 0, []⟩ : Scan).frames = 0 := rfl
    rw [framesBehind] at passed
    omega

/-- **Where reading is refused**: at the first place at which a scan passes the bound. -/
theorem place_of_refusal {failure : Failure} {place : Nat}
    (failed : regex bound pattern = .error failure) (deep : failure.complaint = .tooDeep)
    (passed : bound < framesBehind (pattern.take place))
    (first : ∀ before < place, framesBehind (pattern.take before) ≤ bound) :
    ∃ front, pattern = front ++ failure.rest ∧ front.length = place := by
  obtain ⟨front, _, rfl, _, passedThere, firstThere⟩ := passes_of_refusal failed deep
  refine ⟨front, rfl, ?_⟩
  rcases Nat.lt_trichotomy place front.length with before | same | behind
  · have within := firstThere place before
    rw [List.take_append_of_le_length (Nat.le_of_lt before)] at passed
    omega
  · exact same.symm
  · have within := first front.length behind
    rw [List.take_left] at within
    omega

end Whole

end Reader

end PatternAutomata
