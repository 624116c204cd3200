import PatternAutomata.Proofs.Pattern.Derivation

/-! # Derivations are read back

A reader with frames enough for a tree gets the tree back from what it writes down,
whatever follows that cannot belong to it (`Reader.readsBack_of_fits`). So a pattern has no
two parse trees (`Tree.Parses.unique`).
-/

namespace PatternAutomata

namespace Tree

/-- A base, and with it a factor or a term, begins with a character that ends no term. -/
theorem endsTerm_text {rule : Rule} {tree : Tree} (fits : tree.Fits rule) (rest : List Char) :
    Reader.endsTerm (tree.text ++ rest) = false := by
  induction fits generalizing rest with
  | literal plain =>
      simp only [reserved, List.mem_cons, List.not_mem_nil, or_false, not_or] at plain
      simp [text, Reader.endsTerm, plain.2.1, plain.2.2.1]
  | escaped => rfl
  | group _ _ => rfl
  | ofBase _ ih => exact ih rest
  | star _ ih =>
      rw [text, List.append_assoc]
      exact ih _
  | ofFactor _ ih => exact ih rest
  | concat _ _ _ ih _ =>
      rw [text, List.append_assoc]
      exact ih _
  | ofTerm _ ih => exact ih rest
  | alt _ _ ih _ =>
      rw [text, List.append_assoc]
      exact ih _

end Tree

namespace Reader

/-- What a reader of each part of the grammar makes of the text of a tree and what
follows it. Behind a factor, further stars would be taken as well; behind a term,
further factors. -/
def ReadsBack (frames : Nat) (tree : Tree) : Rule → Prop
  | .base => ∀ rest, base (inGroup frames) (tree.text ++ rest) = .ok (tree, rest)
  | .factor => ∀ rest, factor (inGroup frames) (tree.text ++ rest) = .ok (stars tree rest)
  | .term => ∀ rest, rest.head? ≠ some '*' → ∃ steps, rest.length ≤ steps ∧
      term (inGroup frames) (tree.text ++ rest) = factors (inGroup frames) steps tree rest
  | .regex => ∀ rest, (rest = [] ∨ rest.head? = some ')') →
      regex frames (tree.text ++ rest) = .ok (tree, rest)

theorem stars_of_head? {rest : List Char} (apart : rest.head? ≠ some '*') (tree : Tree) :
    stars tree rest = (tree, rest) := by
  unfold stars
  split
  · exact absurd rfl apart
  · rfl

theorem factors_of_endsTerm {inside : Reader} {rest : List Char} (ends : endsTerm rest = true)
    (steps : Nat) (tree : Tree) : factors inside steps tree rest = .ok (tree, rest) := by
  cases steps with
  | zero => rfl
  | succ steps => rw [factors, if_pos ends]

/-- What may follow a regex ends its last term and is no star. -/
theorem ends_of_follows {rest : List Char} (follows : rest = [] ∨ rest.head? = some ')') :
    endsTerm rest = true ∧ rest.head? ≠ some '*' := by
  rcases follows with rfl | closes
  · exact ⟨rfl, by simp⟩
  · obtain ⟨later, rfl⟩ := List.head?_eq_some_iff.mp closes
    exact ⟨rfl, by simp⟩

theorem base_of_plain {inside : Reader} {character : Char} (notOpen : character ≠ '(')
    (notEscape : character ≠ '\\') (rest : List Char) :
    base inside (character :: rest) = .ok (.literal character, rest) := by
  unfold base
  split
  · contradiction
  · rename_i same
    exact absurd (List.cons.inj same).1 notOpen
  · rename_i same
    exact absurd (List.cons.inj same).1 notEscape
  · rename_i same
    exact absurd (List.cons.inj same).1 notEscape
  · rename_i same
    cases same
    rfl

theorem alternatives_of_bar {inside further : Reader} {ahead behind rest : List Char}
    {first second : Tree} (read : term inside ahead = .ok (first, '|' :: behind))
    (readFurther : further behind = .ok (second, rest)) :
    alternatives inside further ahead = .ok (.alt first second, rest) := by
  simp only [alternatives, read, readFurther]

namespace ReadsBack

variable {frames : Nat} {tree inner first second : Tree}

theorem group (reads : ReadsBack frames inner .regex) :
    ReadsBack (frames + 4) (.group inner) .base := by
  intro rest
  have inside := reads (')' :: rest) (Or.inr rfl)
  change base (inGroup (frames + 4)) ('(' :: inner.text ++ [')'] ++ rest) = _
  rw [List.cons_append, List.cons_append, List.append_assoc, List.singleton_append, base,
    inGroup, inside]
  rfl

theorem ofBase (reads : ReadsBack frames tree .base) : ReadsBack frames tree .factor := by
  intro rest
  rw [factor, reads rest]

theorem star (reads : ReadsBack frames inner .factor) : ReadsBack frames (.star inner) .factor := by
  intro rest
  rw [Tree.text, List.append_assoc, reads, List.singleton_append, stars]

theorem ofFactor (fits : tree.Fits .factor) (reads : ReadsBack frames tree .factor) :
    ReadsBack frames tree .term := by
  intro rest apart
  refine ⟨rest.length, Nat.le_refl _, ?_⟩
  rw [term, Tree.endsTerm_text fits rest, reads rest, stars_of_head? apart]
  rfl

/-- The second part takes up one of the steps that are left behind the first. -/
theorem concat (fits : second.Fits .factor) (begins : second.text.head? ≠ some '*')
    (firstReads : ReadsBack frames first .term) (secondReads : ReadsBack frames second .factor) :
    ReadsBack frames (.concat first second) .term := by
  intro rest apart
  obtain ⟨head, tail, spelled⟩ := List.exists_cons_of_ne_nil second.text_ne_nil
  have secondBegins : (second.text ++ rest).head? ≠ some '*' := by
    rw [spelled] at begins ⊢
    exact begins
  obtain ⟨steps, long, read⟩ := firstReads (second.text ++ rest) secondBegins
  cases steps with
  | zero => simp [spelled] at long
  | succ steps =>
      refine ⟨steps, ?_, ?_⟩
      · simp only [spelled, List.cons_append, List.length_cons, List.length_append] at long
        omega
      · rw [Tree.text, List.append_assoc, read, factors, Tree.endsTerm_text fits rest,
          secondReads rest, stars_of_head? apart]
        rfl

theorem ofTerm (reads : ReadsBack frames tree .term) : ReadsBack frames tree .regex := by
  intro rest follows
  obtain ⟨ends, apart⟩ := ends_of_follows follows
  obtain ⟨steps, _, read⟩ := reads rest apart
  rw [regex_eq, alternatives, read, factors_of_endsTerm ends]
  rcases follows with rfl | closes
  · rfl
  · obtain ⟨later, rfl⟩ := List.head?_eq_some_iff.mp closes
    rfl

theorem alt (firstReads : ReadsBack (frames + 1) first .term)
    (secondReads : ReadsBack frames second .regex) :
    ReadsBack (frames + 1) (.alt first second) .regex := by
  intro rest follows
  obtain ⟨steps, _, read⟩ := firstReads ('|' :: (second.text ++ rest)) (by simp)
  rw [factors_of_endsTerm rfl] at read
  rw [regex_eq, Tree.text, List.append_assoc, List.cons_append]
  exact alternatives_of_bar read (secondReads rest follows)

end ReadsBack

/-- **Derivations are read back** by a reader with frames enough. -/
theorem readsBack_of_fits {rule : Rule} {tree : Tree} (fits : tree.Fits rule) {frames : Nat}
    (enough : tree.frames ≤ frames) : ReadsBack frames tree rule := by
  induction fits generalizing frames with
  | literal plain =>
      intro rest
      simp only [Tree.reserved, List.mem_cons, List.not_mem_nil, or_false, not_or] at plain
      obtain ⟨notOpen, _, _, notEscape⟩ := plain
      exact base_of_plain notOpen notEscape rest
  | escaped => exact fun rest => rfl
  | group _ ih =>
      obtain ⟨fewer, rfl⟩ := Nat.exists_eq_add_of_le' (Nat.le_of_add_left_le enough)
      exact (ih (Nat.le_of_add_le_add_right enough)).group
  | ofBase _ ih => exact (ih enough).ofBase
  | star _ ih => exact (ih enough).star
  | ofFactor fits ih => exact (ih enough).ofFactor fits
  | concat _ secondFits begins firstIH secondIH =>
      obtain ⟨enoughFirst, enoughSecond⟩ := Nat.max_le.mp enough
      exact .concat secondFits begins (firstIH enoughFirst) (secondIH enoughSecond)
  | ofTerm _ ih => exact (ih enough).ofTerm
  | alt _ _ firstIH secondIH =>
      obtain ⟨enoughFirst, enoughSecond⟩ := Nat.max_le.mp enough
      obtain ⟨fewer, rfl⟩ := Nat.exists_eq_add_of_le' (Nat.le_of_add_left_le enoughSecond)
      exact .alt (firstIH enoughFirst) (secondIH (Nat.le_of_add_le_add_right enoughSecond))

end Reader

theorem Tree.Parses.regex_eq {tree : Tree} {pattern : List Char} (parses : tree.Parses pattern)
    {frames : Nat} (enough : tree.frames ≤ frames) :
    Reader.regex frames pattern = .ok (tree, []) := by
  have read := Reader.readsBack_of_fits parses.1 enough [] (Or.inl rfl)
  rw [List.append_nil, parses.2] at read
  exact read

/-- A pattern has no two parse trees. -/
theorem Tree.Parses.unique {first second : Tree} {pattern : List Char}
    (firstParses : first.Parses pattern) (secondParses : second.Parses pattern) :
    first = second := by
  have readFirst := firstParses.regex_eq (Nat.le_max_left first.frames second.frames)
  have readSecond := secondParses.regex_eq (Nat.le_max_right first.frames second.frames)
  cases readFirst.symm.trans readSecond
  rfl

end PatternAutomata
