import PatternAutomata.Pattern.Language
import PatternAutomata.Proofs.Paths.Passages

/-! # Passages of a pattern against its language

The passages of a tree follow from its parts (`Tree.passages`). What leads through
is at least the language of the tree (`Tree.language_le_through`), and may be more:
a star joins the ends of its body, so the words that lead around its start, among its
accepting states and back may be repeated too.

Such words come from the stars at the edges of the body, those that it begins with
and those that one of its branches ends with. A pattern none of whose parts lets more
through than its language is one whose stars have only edges that their bodies
repeated would let through anyway (`Tree.tight_parts_iff`). In particular that is so
where the body of each star is a star or has no star at its edges
(`Tree.through_eq_language`).
-/

namespace PatternAutomata.Tree

open scoped Computability

/-- The words between the start and the accepting states of the automaton of a tree. -/
def passages : Tree → Passages
  | literal character => .letter character
  | escaped character => .letter character
  | group inner => inner.passages
  | star inner => inner.passages.loop
  | concat first second => first.passages.chain second.passages
  | alt first second => first.passages.fork second.passages

/-- Nothing leads through but the words of the language. -/
def Tight (tree : Tree) : Prop :=
  tree.passages.through ≤ tree.language

/-- The parts of a tree, itself among them. -/
def parts : Tree → List Tree
  | literal character => [literal character]
  | escaped character => [escaped character]
  | group inner => group inner :: inner.parts
  | star inner => star inner :: inner.parts
  | concat first second => concat first second :: (first.parts ++ second.parts)
  | alt first second => alt first second :: (first.parts ++ second.parts)

/-- The star that a tree begins with, if it begins with one. An alternative has a
start of its own. -/
def leadingStars : Tree → List Tree
  | literal _ => []
  | escaped _ => []
  | group inner => inner.leadingStars
  | star inner => [star inner]
  | concat first _ => first.leadingStars
  | alt _ _ => []

/-- The stars that the branches of a tree end with. -/
def trailingStars : Tree → List Tree
  | literal _ => []
  | escaped _ => []
  | group inner => inner.trailingStars
  | star inner => [star inner]
  | concat _ second => second.trailingStars
  | alt first second => first.trailingStars ++ second.trailingStars

/-- The stars at either edge of a tree. -/
def edgeStars (tree : Tree) : List Tree :=
  tree.leadingStars ++ tree.trailingStars

theorem mem_parts_self (tree : Tree) : tree ∈ tree.parts := by
  cases tree <;> simp [parts]

theorem leadingStars_subset_parts (tree : Tree) : tree.leadingStars ⊆ tree.parts := by
  induction tree with
  | literal _ => exact List.nil_subset _
  | escaped _ => exact List.nil_subset _
  | group inner ih => exact List.subset_cons_of_subset _ ih
  | star inner _ => exact List.cons_subset.mpr ⟨mem_parts_self _, List.nil_subset _⟩
  | concat first second ih _ =>
      exact List.subset_cons_of_subset _ (List.subset_append_of_subset_left _ ih)
  | alt _ _ _ _ => exact List.nil_subset _

theorem trailingStars_subset_parts (tree : Tree) : tree.trailingStars ⊆ tree.parts := by
  induction tree with
  | literal _ => exact List.nil_subset _
  | escaped _ => exact List.nil_subset _
  | group inner ih => exact List.subset_cons_of_subset _ ih
  | star inner _ => exact List.cons_subset.mpr ⟨mem_parts_self _, List.nil_subset _⟩
  | concat first second _ ih =>
      exact List.subset_cons_of_subset _ (List.subset_append_of_subset_right _ ih)
  | alt first second firstIH secondIH =>
      refine List.subset_cons_of_subset _ (List.append_subset.mpr ⟨?_, ?_⟩)
      · exact List.subset_append_of_subset_left _ firstIH
      · exact List.subset_append_of_subset_right _ secondIH

/-- No word of the language is lost. -/
theorem language_le_through (tree : Tree) : tree.language ≤ tree.passages.through := by
  induction tree with
  | literal _ => exact le_rfl
  | escaped _ => exact le_rfl
  | group _ ih => exact ih
  | star inner ih =>
      have counted : inner.passages.through ≤ inner.passages.all := by
        unfold Passages.all
        exact le_add_right (le_add_right (le_add_left le_rfl))
      exact kstar_mono (ih.trans counted)
  | concat _ _ firstIH secondIH => exact mul_le_mul' firstIH secondIH
  | alt _ _ firstIH secondIH => exact add_le_add firstIH secondIH

/-- What leads around the start of a tree leads through the star that it begins with. -/
theorem mem_around_iff {tree : Tree} {word : List Char} :
    word ∈ tree.passages.around ↔
      word = [] ∨ ∃ edge ∈ tree.leadingStars, word ∈ edge.passages.through := by
  induction tree with
  | literal _ => simp [passages, Passages.letter, leadingStars]
  | escaped _ => simp [passages, Passages.letter, leadingStars]
  | group _ ih => exact ih
  | star inner _ =>
      simp only [leadingStars, List.mem_singleton, exists_eq_left]
      refine ⟨Or.inr, fun either => either.elim ?_ id⟩
      rintro rfl
      exact Language.nil_mem_kstar _
  | concat _ _ ih _ => exact ih
  | alt _ _ _ _ => simp [passages, Passages.fork, leadingStars]

/-- What leads among the accepting states of a tree leads through one of the stars
that its branches end with. -/
theorem mem_among_iff {tree : Tree} {word : List Char} :
    word ∈ tree.passages.among ↔
      word = [] ∨ ∃ edge ∈ tree.trailingStars, word ∈ edge.passages.through := by
  induction tree with
  | literal _ => simp [passages, Passages.letter, trailingStars]
  | escaped _ => simp [passages, Passages.letter, trailingStars]
  | group _ ih => exact ih
  | star inner _ =>
      simp only [trailingStars, List.mem_singleton, exists_eq_left]
      refine ⟨Or.inr, fun either => either.elim ?_ id⟩
      rintro rfl
      exact Language.nil_mem_kstar _
  | concat _ _ _ ih => exact ih
  | alt first second firstIH secondIH =>
      change word ∈ first.passages.among + second.passages.among ↔ _
      rw [Language.mem_add, firstIH, secondIH]
      simp only [trailingStars, List.mem_append, or_and_right, exists_or]
      exact or_or_distrib_left.symm

/-- Only a star leads back, and then it leads around as well. -/
theorem back_le_around (tree : Tree) : tree.passages.back ≤ tree.passages.around := by
  induction tree with
  | literal _ => exact zero_le
  | escaped _ => exact zero_le
  | group _ ih => exact ih
  | star _ _ => exact le_rfl
  | concat _ _ _ _ => exact zero_le
  | alt _ _ _ _ => exact zero_le

/-- What the stars at the edges of a body let through is repeated by a star around it. -/
theorem edgeStars_le_all {body edge : Tree} (member : edge ∈ body.edgeStars) :
    edge.passages.through ≤ body.passages.all := by
  intro word through
  rcases List.mem_append.mp member with leading | trailing
  · have around := mem_around_iff.mpr (Or.inr ⟨edge, leading, through⟩)
    exact Or.inl (Or.inl (Or.inl around))
  · have among := mem_among_iff.mpr (Or.inr ⟨edge, trailing, through⟩)
    exact Or.inl (Or.inr among)

/-- All that leads between the ends of a body leads through it or through a star at
its edges. -/
theorem all_le {body : Tree} {language : Language Char} (empty : 1 ≤ language)
    (through : body.passages.through ≤ language)
    (edges : ∀ edge ∈ body.edgeStars, edge.passages.through ≤ language) :
    body.passages.all ≤ language := by
  have around : body.passages.around ≤ language := by
    intro word leads
    rcases mem_around_iff.mp leads with rfl | ⟨edge, leading, passes⟩
    · exact empty Language.nil_mem_one
    · exact edges edge (List.mem_append_left _ leading) passes
  have among : body.passages.among ≤ language := by
    intro word leads
    rcases mem_among_iff.mp leads with rfl | ⟨edge, trailing, passes⟩
    · exact empty Language.nil_mem_one
    · exact edges edge (List.mem_append_right _ trailing) passes
  have back := body.back_le_around.trans around
  exact add_le (add_le (add_le around through) among) back

theorem tight_star {body : Tree} (tight : ∀ part ∈ body.parts, part.Tight)
    (edges : ∀ edge ∈ body.edgeStars, edge.language ≤ body.language∗) : (star body).Tight := by
  have all : body.passages.all ≤ body.language∗ := by
    refine all_le one_le_kstar ((tight body body.mem_parts_self).trans le_kstar) ?_
    intro edge member
    have part : edge ∈ body.parts := (List.mem_append.mp member).elim
      (fun leading => leadingStars_subset_parts body leading)
      fun trailing => trailingStars_subset_parts body trailing
    exact (tight edge part).trans (edges edge member)
  calc body.passages.all∗ ≤ body.language∗∗ := kstar_mono all
    _ = body.language∗ := kstar_idem _

/-- **Where stars are exact.** No part of a pattern lets more through than its language
exactly when every star at an edge of the body of a star denotes only words that the
body repeated denotes. -/
theorem tight_parts_iff (tree : Tree) :
    (∀ part ∈ tree.parts, part.Tight) ↔
      ∀ body, star body ∈ tree.parts → ∀ edge ∈ body.edgeStars, edge.language ≤ body.language∗ := by
  constructor
  · intro tight body member edge atEdge
    have exact_ : body.passages.all∗ ≤ body.language∗ := tight (star body) member
    calc edge.language ≤ edge.passages.through := edge.language_le_through
      _ ≤ body.passages.all := edgeStars_le_all atEdge
      _ ≤ body.passages.all∗ := le_kstar
      _ ≤ body.language∗ := exact_
  · intro edges
    induction tree with
    | literal _ =>
        intro part member
        rw [List.mem_singleton.mp member]
        exact le_refl _
    | escaped _ =>
        intro part member
        rw [List.mem_singleton.mp member]
        exact le_refl _
    | group inner ih =>
        have tight := ih fun body member => edges body (List.mem_cons_of_mem _ member)
        exact List.forall_mem_cons.mpr ⟨tight inner inner.mem_parts_self, tight⟩
    | star inner ih =>
        have tight := ih fun body member => edges body (List.mem_cons_of_mem _ member)
        exact List.forall_mem_cons.mpr ⟨tight_star tight (edges inner List.mem_cons_self), tight⟩
    | concat first second firstIH secondIH =>
        have firstTight := firstIH fun body member =>
          edges body (List.mem_cons_of_mem _ (List.mem_append_left _ member))
        have secondTight := secondIH fun body member =>
          edges body (List.mem_cons_of_mem _ (List.mem_append_right _ member))
        refine List.forall_mem_cons.mpr ⟨?_, List.forall_mem_append.mpr ⟨firstTight, secondTight⟩⟩
        exact mul_le_mul' (firstTight first first.mem_parts_self)
          (secondTight second second.mem_parts_self)
    | alt first second firstIH secondIH =>
        have firstTight := firstIH fun body member =>
          edges body (List.mem_cons_of_mem _ (List.mem_append_left _ member))
        have secondTight := secondIH fun body member =>
          edges body (List.mem_cons_of_mem _ (List.mem_append_right _ member))
        refine List.forall_mem_cons.mpr ⟨?_, List.forall_mem_append.mpr ⟨firstTight, secondTight⟩⟩
        exact add_le_add (firstTight first first.mem_parts_self)
          (secondTight second second.mem_parts_self)

/-- Whether a tree is a star, in groups or not. -/
def isStar : Tree → Bool
  | group inner => inner.isStar
  | star _ => true
  | _ => false

/-- Whether a tree is a star or a concatenation whose first factor is start-looping. -/
def startLooping : Tree → Bool
  | literal _ => false
  | escaped _ => false
  | group inner => inner.startLooping
  | star _ => true
  | concat first _ => first.startLooping
  | alt _ _ => false

/-- Whether a tree is a star, a concatenation whose last factor is end-looping, or an
alternative one of whose branches is. -/
def endLooping : Tree → Bool
  | literal _ => false
  | escaped _ => false
  | group inner => inner.endLooping
  | star _ => true
  | concat _ second => second.endLooping
  | alt first second => first.endLooping || second.endLooping

/-- Whether the operand of every star is a star itself, or is neither start-looping
nor end-looping. -/
def starsApart : Tree → Bool
  | literal _ => true
  | escaped _ => true
  | group inner => inner.starsApart
  | star inner => (inner.isStar || !inner.startLooping && !inner.endLooping) && inner.starsApart
  | concat first second => first.starsApart && second.starsApart
  | alt first second => first.starsApart && second.starsApart

theorem leadingStars_eq_nil {tree : Tree} (apart : tree.startLooping = false) :
    tree.leadingStars = [] := by
  induction tree with
  | literal _ => rfl
  | escaped _ => rfl
  | group _ ih => exact ih apart
  | star _ _ => cases apart
  | concat _ _ ih _ => exact ih apart
  | alt _ _ _ _ => rfl

theorem trailingStars_eq_nil {tree : Tree} (apart : tree.endLooping = false) :
    tree.trailingStars = [] := by
  induction tree with
  | literal _ => rfl
  | escaped _ => rfl
  | group _ ih => exact ih apart
  | star _ _ => cases apart
  | concat _ _ _ ih => exact ih apart
  | alt first second firstIH secondIH =>
      have both := Bool.or_eq_false_iff.mp apart
      exact List.append_eq_nil_iff.mpr ⟨firstIH both.1, secondIH both.2⟩

/-- The only star at the edges of a star is itself, groups apart. -/
theorem language_of_edgeStars {tree edge : Tree} (isStar : tree.isStar = true)
    (member : edge ∈ tree.edgeStars) : edge.language = tree.language := by
  induction tree with
  | literal _ => cases isStar
  | escaped _ => cases isStar
  | group _ ih => exact ih isStar member
  | star inner _ =>
      have same : edge = star inner := by
        simpa [edgeStars, leadingStars, trailingStars] using member
      rw [same]
  | concat _ _ _ _ => cases isStar
  | alt _ _ _ _ => cases isStar

theorem edges_of_starsApart {tree : Tree} (apart : tree.starsApart = true) :
    ∀ body, star body ∈ tree.parts → ∀ edge ∈ body.edgeStars, edge.language ≤ body.language∗ := by
  induction tree with
  | literal _ => simp [parts]
  | escaped _ => simp [parts]
  | group inner ih =>
      intro body member
      exact ih apart body ((List.mem_cons.mp member).resolve_left nofun)
  | star inner ih =>
      have ⟨operand, innerApart⟩ := (Bool.and_eq_true _ _).mp apart
      intro body member edge atEdge
      rcases List.mem_cons.mp member with same | deeper
      · cases same
        rcases (Bool.or_eq_true _ _).mp operand with isStar | plain
        · rw [language_of_edgeStars isStar atEdge]
          exact le_kstar
        · simp only [Bool.and_eq_true, Bool.not_eq_true'] at plain
          have none : inner.edgeStars = [] := by
            rw [edgeStars, leadingStars_eq_nil plain.1, trailingStars_eq_nil plain.2]
            rfl
          rw [none] at atEdge
          cases atEdge
      · exact ih innerApart body deeper edge atEdge
  | concat first second firstIH secondIH =>
      have ⟨firstApart, secondApart⟩ := (Bool.and_eq_true _ _).mp apart
      intro body member
      rcases List.mem_append.mp ((List.mem_cons.mp member).resolve_left nofun) with inside | inside
      · exact firstIH firstApart body inside
      · exact secondIH secondApart body inside
  | alt first second firstIH secondIH =>
      have ⟨firstApart, secondApart⟩ := (Bool.and_eq_true _ _).mp apart
      intro body member
      rcases List.mem_append.mp ((List.mem_cons.mp member).resolve_left nofun) with inside | inside
      · exact firstIH firstApart body inside
      · exact secondIH secondApart body inside

/-- What leads through a pattern whose stars lie apart is its language. -/
theorem through_eq_language {tree : Tree} (apart : tree.starsApart = true) :
    tree.passages.through = tree.language := by
  have tight := (tight_parts_iff tree).mpr (edges_of_starsApart apart)
  exact le_antisymm (tight tree tree.mem_parts_self) tree.language_le_through

end PatternAutomata.Tree
