/-! # Transition symbols

A transition carries a symbol: epsilon, the label of a silent move, or exactly
one character. Symbols are kept as strings, with epsilon as the empty one, since
transitions given from outside may carry longer texts that no move ever matches.
-/

namespace PatternAutomata

/-- The label of a silent move. -/
def epsilon : String := ""

/-- A text is a symbol when it is epsilon or has exactly one character. -/
def IsSymbol (text : String) : Prop :=
  text = epsilon ∨ text.length = 1

instance (text : String) : Decidable (IsSymbol text) :=
  inferInstanceAs (Decidable (_ ∨ _))

/-- No character is the label of a silent move. -/
theorem singleton_ne_epsilon (character : Char) : String.singleton character ≠ epsilon := by
  intro same
  have lengths := congrArg String.length same
  simp [epsilon] at lengths

theorem isSymbol_epsilon : IsSymbol epsilon := Or.inl rfl

theorem isSymbol_singleton (character : Char) : IsSymbol (String.singleton character) :=
  Or.inr (by simp)

/-- A text of one character is that character. -/
theorem exists_singleton_of_isSymbol {symbol : String} (proper : IsSymbol symbol)
    (loud : symbol ≠ epsilon) : ∃ character, symbol = String.singleton character := by
  rcases proper with silent | single
  · exact absurd silent loud
  · rw [← String.length_toList, List.length_eq_one_iff] at single
    obtain ⟨character, spelled⟩ := single
    exact ⟨character, String.toList_inj.mp (by rw [spelled, String.toList_singleton])⟩

end PatternAutomata
