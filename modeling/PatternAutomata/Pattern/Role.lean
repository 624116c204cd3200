import PatternAutomata.Pattern.Tree

/-! # The roles of characters

Each character of a pattern has a role: it stands for itself, or it opens or closes a group,
divides alternatives, repeats what is before it, or escapes the next one. The tree of a pattern
says which role each has (`Tree.roles`).

Without a tree the role can be told from the text before the character. All that counts of that
text is whether the character is escaped and, since a star is taken by the factor before it,
whether a factor must begin here (`Place`). In a tree the place follows from the role of the
character before (`Tree.place`).
-/

namespace PatternAutomata

/-- The role of a character in a pattern. -/
inductive Role
  /-- It stands for itself. -/
  | plain
  /-- It stands for itself, whatever it is, since it is escaped. -/
  | escaped
  /-- It escapes the next character. -/
  | escape
  /-- It opens a group. -/
  | opening
  /-- It closes a group. -/
  | closing
  /-- It divides alternatives. -/
  | bar
  /-- It repeats what is before it. -/
  | star
deriving DecidableEq

/-- What is known of a place of a pattern from the text before it. -/
inductive Place
  /-- A factor must begin here: at the start, and behind an opening parenthesis or a bar. -/
  | entry
  /-- What is here is behind a factor, or behind a part of one. -/
  | behind
  /-- What is here is escaped. -/
  | escaped
deriving DecidableEq

namespace Role

/-- Whether a character in this role is a literal. -/
def isLiteral : Role → Bool
  | plain => true
  | escaped => true
  | _ => false

/-- The role that the grammar keeps for a character. -/
def own : Char → Option Role
  | '(' => some opening
  | ')' => some closing
  | '|' => some bar
  | '*' => some star
  | '\\' => some escape
  | _ => none

/-- The place behind a character in this role. -/
def leaves : Role → Place
  | opening => .entry
  | bar => .entry
  | escape => .escaped
  | _ => .behind

/-- The literals among characters whose roles are given. -/
def literals (text : List Char) (roles : List Role) : List Char :=
  ((text.zip roles).filter fun entry => entry.2.isLiteral).map Prod.fst

theorem literals_append {first second : List Char} {firstRoles secondRoles : List Role}
    (lengths : first.length = firstRoles.length) :
    literals (first ++ second) (firstRoles ++ secondRoles) =
      literals first firstRoles ++ literals second secondRoles := by
  rw [literals, List.zip_append lengths, List.filter_append, List.map_append]
  rfl

end Role

namespace Tree

/-- The roles of the characters that a tree writes down. -/
def roles : Tree → List Role
  | literal _ => [.plain]
  | escaped _ => [.escape, .escaped]
  | group inner => .opening :: inner.roles ++ [.closing]
  | star inner => inner.roles ++ [.star]
  | concat first second => first.roles ++ second.roles
  | alt first second => first.roles ++ .bar :: second.roles

theorem length_roles (tree : Tree) : tree.roles.length = tree.text.length := by
  induction tree with
  | literal _ => rfl
  | escaped _ => rfl
  | group inner ih => simp only [roles, text, List.length_append, List.length_cons, ih]; rfl
  | star inner ih => simp only [roles, text, List.length_append, ih]; rfl
  | concat first second firstIH secondIH =>
      simp only [roles, text, List.length_append, firstIH, secondIH]
  | alt first second firstIH secondIH =>
      simp only [roles, text, List.length_append, List.length_cons, firstIH, secondIH]

/-- The literals of a tree are the characters that have the role of one. -/
theorem literals_roles (tree : Tree) : Role.literals tree.text tree.roles = tree.literals := by
  induction tree with
  | literal _ => rfl
  | escaped _ => rfl
  | group inner ih =>
      change Role.literals (inner.text ++ [')']) (inner.roles ++ [.closing]) = inner.literals
      rw [Role.literals_append inner.length_roles.symm, ih]
      exact List.append_nil _
  | star inner ih =>
      rw [text, roles, Role.literals_append inner.length_roles.symm, ih]
      exact List.append_nil _
  | concat first second firstIH secondIH =>
      rw [text, roles, Role.literals_append first.length_roles.symm, firstIH, secondIH, literals]
  | alt first second firstIH secondIH =>
      rw [text, roles, Role.literals_append first.length_roles.symm, firstIH, literals, ← secondIH]
      rfl

/-- The place at a position of a tree. -/
def place (tree : Tree) : Nat → Place
  | 0 => .entry
  | position + 1 => (tree.roles[position]?.map Role.leaves).getD .behind

end Tree

namespace Place

/-- The role of a character at a place. -/
def role : Place → Char → Role
  | escaped, _ => .escaped
  | _, '(' => .opening
  | _, ')' => .closing
  | _, '|' => .bar
  | _, '\\' => .escape
  | behind, '*' => .star
  | _, _ => .plain

/-- The place behind a character. -/
def step (place : Place) (character : Char) : Place :=
  (place.role character).leaves

/-- The place behind a text. -/
def pass (place : Place) (text : List Char) : Place :=
  text.foldl step place

/-- The roles of the characters of a text. -/
def roles : Place → List Char → List Role
  | _, [] => []
  | place, character :: text => place.role character :: (place.step character).roles text

/-- The characters of a text that are literals. -/
def literals (place : Place) (text : List Char) : List Char :=
  Role.literals text (place.roles text)

@[simp] theorem pass_nil (place : Place) : place.pass [] = place := rfl

@[simp] theorem pass_cons (place : Place) (character : Char) (text : List Char) :
    place.pass (character :: text) = (place.step character).pass text := rfl

theorem pass_append (place : Place) (first second : List Char) :
    place.pass (first ++ second) = (place.pass first).pass second :=
  List.foldl_append

theorem length_roles (place : Place) (text : List Char) :
    (place.roles text).length = text.length := by
  induction text generalizing place with
  | nil => rfl
  | cons character text ih => exact congrArg (· + 1) (ih _)

theorem roles_append (place : Place) (first second : List Char) :
    place.roles (first ++ second) = place.roles first ++ (place.pass first).roles second := by
  induction first generalizing place with
  | nil => rfl
  | cons character first ih => exact congrArg (_ :: ·) (ih _)

theorem literals_append (place : Place) (first second : List Char) :
    place.literals (first ++ second) = place.literals first ++ (place.pass first).literals second := by
  rw [literals, roles_append, Role.literals_append (place.length_roles first).symm]
  rfl

theorem getElem?_roles (place : Place) (text : List Char) (position : Nat) :
    (place.roles text)[position]? = text[position]?.map (place.pass (text.take position)).role := by
  induction text generalizing place position with
  | nil => rfl
  | cons character text ih =>
      cases position with
      | zero => rfl
      | succ position => exact ih _ position

/-- The place behind a character follows from the role of the character. -/
theorem pass_take_succ (place : Place) {text : List Char} {position : Nat} {character : Char}
    (found : text[position]? = some character) :
    place.pass (text.take (position + 1)) =
      ((place.pass (text.take position)).role character).leaves := by
  rw [List.take_add_one, pass_append, found]
  rfl

/-- A character that the grammar keeps for a role has it, but where it is escaped, and but for
a star where a factor must begin. -/
theorem role_of_own {mark : Char} {role : Role} (own : Role.own mark = some role) (place : Place) :
    place = escaped ∧ place.role mark = .escaped ∨
      place = entry ∧ mark = '*' ∧ place.role mark = .plain ∨
      place ≠ escaped ∧ (place = entry → mark ≠ '*') ∧ place.role mark = role := by
  cases place with
  | escaped => exact Or.inl ⟨rfl, rfl⟩
  | entry =>
      unfold Role.own at own
      split at own <;> cases own <;> decide
  | behind =>
      refine Or.inr (Or.inr ⟨nofun, nofun, ?_⟩)
      unfold Role.own at own
      split at own <;> cases own <;> rfl

/-- Anything but a star has the same role behind a factor as where one must begin. -/
theorem role_behind {character : Char} (apart : character ≠ '*') :
    behind.role character = entry.role character := by
  unfold role
  split <;> simp_all

theorem roles_behind {text : List Char} (apart : text.head? ≠ some '*') :
    behind.roles text = entry.roles text := by
  cases text with
  | nil => rfl
  | cons character text =>
      have same := role_behind fun star => apart (congrArg some star)
      rw [roles, roles, step, step, same]

theorem pass_behind {text : List Char} (present : text ≠ []) (apart : text.head? ≠ some '*') :
    behind.pass text = entry.pass text := by
  cases text with
  | nil => exact absurd rfl present
  | cons character text =>
      have same := role_behind fun star => apart (congrArg some star)
      rw [pass_cons, pass_cons, step, step, same]

theorem literals_behind {text : List Char} (apart : text.head? ≠ some '*') :
    behind.literals text = entry.literals text := by
  rw [literals, roles_behind apart, literals]

end Place

end PatternAutomata
