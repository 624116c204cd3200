/-! # Finite sets of strings

A finite set of strings is kept as its members in increasing order of code
points. There is one such list for each set, so two sets with the same members
are equal (`StringSet.ext`), and reading the members in order is reading the
list.
-/

namespace PatternAutomata

/-- A finite set of strings, held as its members in increasing order. -/
@[ext]
structure StringSet where
  /-- The members, in increasing order of code points. -/
  toList : List String
  /-- The members increase strictly, so none is listed twice. -/
  sorted : toList.Pairwise (· < ·) := by simp
deriving DecidableEq

namespace StringSet

instance : Membership String StringSet := ⟨fun set text => text ∈ set.toList⟩

instance (text : String) (set : StringSet) : Decidable (text ∈ set) :=
  inferInstanceAs (Decidable (text ∈ set.toList))

instance : EmptyCollection StringSet := ⟨⟨[], .nil⟩⟩

instance : Inhabited StringSet := ⟨∅⟩

theorem mem_def {text : String} {set : StringSet} : text ∈ set ↔ text ∈ set.toList := Iff.rfl

@[simp] theorem toList_empty : (∅ : StringSet).toList = [] := rfl

@[simp] theorem not_mem_empty (text : String) : text ∉ (∅ : StringSet) := by
  simp [mem_def]

/-- Puts a string into a list in increasing order, which stays as it is when it
holds the string. -/
def insertInto (text : String) : List String → List String
  | [] => [text]
  | head :: rest =>
      if text < head then text :: head :: rest
      else if head < text then head :: insertInto text rest
      else head :: rest

theorem mem_insertInto {text other : String} {members : List String} :
    other ∈ insertInto text members ↔ other = text ∨ other ∈ members := by
  induction members with
  | nil => simp [insertInto]
  | cons head rest ih =>
      unfold insertInto
      split
      · simp
      · split
        · simp only [List.mem_cons, ih]
          exact or_left_comm
        · have same : text = head :=
            String.le_antisymm (String.not_lt.mp ‹_›) (String.not_lt.mp ‹_›)
          simp [same]

theorem sorted_insertInto {text : String} {members : List String}
    (sorted : members.Pairwise (· < ·)) : (insertInto text members).Pairwise (· < ·) := by
  induction members with
  | nil => simp [insertInto]
  | cons head rest ih =>
      have ⟨below, restSorted⟩ := List.pairwise_cons.mp sorted
      unfold insertInto
      split
      · refine List.pairwise_cons.mpr ⟨fun other member => ?_, sorted⟩
        rcases List.mem_cons.mp member with same | later
        · exact same ▸ ‹text < head›
        · exact String.lt_trans ‹text < head› (below other later)
      · split
        · refine List.pairwise_cons.mpr ⟨fun other member => ?_, ih restSorted⟩
          rcases mem_insertInto.mp member with same | later
          · exact same ▸ ‹head < text›
          · exact below other later
        · exact sorted

/-- Adds a string to a set. -/
def insert (set : StringSet) (text : String) : StringSet :=
  ⟨insertInto text set.toList, sorted_insertInto set.sorted⟩

@[simp] theorem mem_insert {set : StringSet} {text other : String} :
    other ∈ set.insert text ↔ other = text ∨ other ∈ set :=
  mem_insertInto

/-- Adds every string of a list to a set. -/
def insertAll (set : StringSet) (texts : List String) : StringSet :=
  texts.foldl insert set

@[simp] theorem insertAll_nil (set : StringSet) : set.insertAll [] = set := rfl

@[simp] theorem insertAll_cons (set : StringSet) (text : String) (texts : List String) :
    set.insertAll (text :: texts) = (set.insert text).insertAll texts := rfl

@[simp] theorem mem_insertAll {set : StringSet} {texts : List String} {other : String} :
    other ∈ set.insertAll texts ↔ other ∈ texts ∨ other ∈ set := by
  induction texts generalizing set with
  | nil => simp
  | cons text texts ih =>
      rw [insertAll_cons, ih, mem_insert, List.mem_cons]
      exact ⟨fun h => by rcases h with h | h | h <;> simp [h],
        fun h => by rcases h with (h | h) | h <;> simp [h]⟩

/-- The set of the strings in a list. -/
def ofList (texts : List String) : StringSet :=
  insertAll ∅ texts

@[simp] theorem mem_ofList {texts : List String} {other : String} :
    other ∈ ofList texts ↔ other ∈ texts := by
  simp [ofList]

instance : Union StringSet := ⟨fun first second => first.insertAll second.toList⟩

@[simp] theorem mem_union {first second : StringSet} {text : String} :
    text ∈ first ∪ second ↔ text ∈ first ∨ text ∈ second := by
  change text ∈ first.insertAll second.toList ↔ _
  rw [mem_insertAll, ← mem_def]
  exact or_comm

/-- A set is determined by its members. -/
theorem eq_of_mem_iff {first second : StringSet}
    (same : ∀ text, text ∈ first ↔ text ∈ second) : first = second := by
  obtain ⟨left, leftSorted⟩ := first
  obtain ⟨right, rightSorted⟩ := second
  simp only [mem_def] at same
  refine StringSet.ext ?_
  change left = right
  induction left generalizing right with
  | nil =>
      cases right with
      | nil => rfl
      | cons head rest => exact absurd ((same head).mpr (by simp)) (by simp)
  | cons head rest ih =>
      cases right with
      | nil => exact absurd ((same head).mp (by simp)) (by simp)
      | cons other others =>
          have ⟨below, restSorted⟩ := List.pairwise_cons.mp leftSorted
          have ⟨otherBelow, othersSorted⟩ := List.pairwise_cons.mp rightSorted
          have heads : head = other := by
            rcases List.mem_cons.mp ((same head).mp (by simp)) with same | inOthers
            · exact same
            rcases List.mem_cons.mp ((same other).mpr (by simp)) with same | inRest
            · exact same.symm
            exact absurd (below other inRest) (String.lt_asymm (otherBelow head inOthers))
          subst heads
          refine congrArg (head :: ·) (ih restSorted others othersSorted fun text => ?_)
          have step := same text
          simp only [List.mem_cons] at step
          constructor
          · intro member
            rcases step.mp (Or.inr member) with same | inOthers
            · exact absurd (below text member) (same ▸ String.lt_irrefl _)
            · exact inOthers
          · intro member
            rcases step.mpr (Or.inr member) with same | inRest
            · exact absurd (otherBelow text member) (same ▸ String.lt_irrefl _)
            · exact inRest

theorem insert_of_mem {set : StringSet} {text : String} (member : text ∈ set) :
    set.insert text = set := by
  apply eq_of_mem_iff
  intro other
  rw [mem_insert]
  exact or_iff_right_of_imp fun same => same ▸ member

theorem insert_comm (set : StringSet) (first second : String) :
    (set.insert first).insert second = (set.insert second).insert first := by
  apply eq_of_mem_iff
  intro other
  simp only [mem_insert]
  exact or_left_comm

theorem insertAll_append (set : StringSet) (first second : List String) :
    set.insertAll (first ++ second) = (set.insertAll first).insertAll second :=
  List.foldl_append

/-- A set is made of its own members. -/
theorem ofList_toList (set : StringSet) : ofList set.toList = set := by
  apply eq_of_mem_iff
  intro other
  rw [mem_ofList, mem_def]

end StringSet

end PatternAutomata
