import Mathlib
import PatternAutomata.Machine.Iteration
import PatternAutomata.Machine.Path

/-! # Searching along silent moves

The search for the names that silent moves reach keeps a set of names found and a
list of those whose own moves are still to be followed. Every other name found is
owned, and its silent moves lead to names found (`Machine.Explored`); following a
pending name keeps that and leaves one owned name less to follow. None of this
depends on the order of the pending names. So in any order the search comes to an end
(`Machine.exploreBy_searches`) without taking a name twice (`Machine.Searches.distinct`),
and in one of two ways (`Machine.exploreBy_ends`): with exactly the names reached, or at
a name reached that has no owner.
-/

namespace PatternAutomata.Machine

variable {machine : Machine}

/-- A name is owned and its silent moves stay in a set. -/
def Expanded (machine : Machine) (found : StringSet) (name : String) : Prop :=
  ∃ state, machine.states.find? name = some state ∧
    ∀ target ∈ state.targets epsilon, target ∈ found

/-- A set of owned names that silent moves do not leave. -/
def Settled (machine : Machine) (found : StringSet) : Prop :=
  ∀ name ∈ found, machine.Expanded found name

/-- Where a search stands. -/
structure Explored (machine : Machine) (found : StringSet) (pending : List String) : Prop where
  pendingFound : ∀ name ∈ pending, name ∈ found
  distinct : pending.Nodup
  expanded : ∀ name ∈ found, name ∉ pending → machine.Expanded found name

/-- The owned names that are not followed yet. -/
def unfollowed (machine : Machine) (found : StringSet) (pending : List String) : List String :=
  machine.states.keys.filter fun key => key ∉ found ∨ key ∈ pending

theorem Expanded.mono {found more : StringSet} {name : String}
    (expanded : machine.Expanded found name) (included : ∀ other ∈ found, other ∈ more) :
    machine.Expanded more name := by
  obtain ⟨state, owned, stays⟩ := expanded
  exact ⟨state, owned, fun target leads => included target (stays target leads)⟩

theorem owned_iff {name : String} :
    name ∈ machine.states.keys ↔ ∃ state, machine.states.find? name = some state :=
  Table.mem_keys_iff

/-- From a name found, silent moves reach names found or pass a pending one. -/
theorem Explored.reach {found : StringSet} {pending : List String}
    (explored : machine.Explored found pending) {source target : String}
    (inside : source ∈ found) (path : machine.Path source [] target) :
    target ∈ found ∨ ∃ origin ∈ pending, machine.Path origin [] target := by
  generalize spelled : ([] : List Char) = word at path
  induction path with
  | here _ => exact Or.inl inside
  | @silent source next last word move rest ih =>
      by_cases waits : source ∈ pending
      · subst spelled
        exact Or.inr ⟨source, waits, .silent move rest⟩
      · obtain ⟨state, owned, stays⟩ := explored.expanded source inside waits
        obtain ⟨own, sameOwned, leads⟩ := move
        have same : state = own := Option.some.inj (owned.symm.trans sameOwned)
        exact ih (stays next (same ▸ leads)) spelled
  | read _ _ _ => cases spelled

theorem Settled.reach {found : StringSet} (settled : machine.Settled found)
    {source target : String} (inside : source ∈ found) (path : machine.Path source [] target) :
    target ∈ found := by
  have explored : machine.Explored found [] :=
    ⟨nofun, List.nodup_nil, fun name member _ => settled name member⟩
  rcases explored.reach inside path with reached | ⟨_, none, _⟩
  · exact reached
  · cases none

/-- With nothing pending, what is found is settled and nothing else is reached. -/
theorem Explored.finished {found : StringSet} (explored : machine.Explored found []) :
    machine.Settled found ∧ ∀ name, name ∈ found ↔
      name ∈ found ∨ ∃ origin ∈ ([] : List String), machine.Path origin [] name := by
  refine ⟨fun name member => explored.expanded name member nofun, fun name => ?_⟩
  exact ⟨Or.inl, fun either => either.resolve_right nofun⟩

section Follow

variable {found : StringSet} {name : String} {pending : List String} {state : State}

/-- Following a pending name adds the targets of its silent moves that are new. -/
theorem Explored.follow (explored : machine.Explored found (name :: pending))
    (owned : machine.states.find? name = some state) :
    let fresh := (state.targets epsilon).toList.filter fun target => target ∉ found
    machine.Explored (found.insertAll fresh) (fresh ++ pending) := by
  intro fresh
  have isFresh : ∀ target, target ∈ fresh ↔ target ∈ state.targets epsilon ∧ target ∉ found := by
    intro target
    simp only [fresh, List.mem_filter, decide_eq_true_eq, StringSet.mem_def]
  have included : ∀ other ∈ found, other ∈ found.insertAll fresh := fun other member =>
    StringSet.mem_insertAll.mpr (Or.inr member)
  refine ⟨?_, ?_, ?_⟩
  · intro other waits
    rcases List.mem_append.mp waits with new | old
    · exact StringSet.mem_insertAll.mpr (Or.inl new)
    · exact included other (explored.pendingFound other (List.mem_cons_of_mem _ old))
  · refine List.nodup_append'.mpr ⟨?_, (List.nodup_cons.mp explored.distinct).2, ?_⟩
    · have increasing := (state.targets epsilon).sorted
      exact (increasing.imp fun below => String.ne_of_lt below).filter _
    · intro other new old
      have foundBefore := explored.pendingFound other (List.mem_cons_of_mem _ old)
      exact ((isFresh other).mp new).2 foundBefore
  · intro other member settled
    have notFresh : other ∉ fresh := fun new => settled (List.mem_append_left _ new)
    have notOld : other ∉ pending := fun old => settled (List.mem_append_right _ old)
    have old : other ∈ found := (StringSet.mem_insertAll.mp member).resolve_left notFresh
    by_cases same : other = name
    · subst same
      refine ⟨state, owned, fun target leads => StringSet.mem_insertAll.mpr ?_⟩
      by_cases before : target ∈ found
      · exact Or.inr before
      · exact Or.inl ((isFresh target).mpr ⟨leads, before⟩)
    · have waitsNot : other ∉ name :: pending := fun waits =>
        (List.mem_cons.mp waits).elim same notOld
      exact (explored.expanded other old waitsNot).mono included

/-- Following a pending name leaves one owned name less to follow. -/
theorem unfollowed_follow (explored : machine.Explored found (name :: pending))
    (owned : machine.states.find? name = some state) :
    let fresh := (state.targets epsilon).toList.filter fun target => target ∉ found
    (machine.unfollowed (found.insertAll fresh) (fresh ++ pending)).length <
      (machine.unfollowed found (name :: pending)).length := by
  intro fresh
  have waits : name ∈ machine.unfollowed found (name :: pending) := by
    refine List.mem_filter.mpr ⟨owned_iff.mpr ⟨state, owned⟩, ?_⟩
    exact decide_eq_true (Or.inr List.mem_cons_self)
  have included : machine.unfollowed (found.insertAll fresh) (fresh ++ pending) ⊆
      (machine.unfollowed found (name :: pending)).erase name := by
    intro other member
    obtain ⟨isOwned, unsettled⟩ := List.mem_filter.mp member
    have either : other ∉ found ∨ other ∈ pending := by
      rcases of_decide_eq_true unsettled with outside | waiting
      · exact Or.inl fun before => outside (StringSet.mem_insertAll.mpr (Or.inr before))
      · refine (List.mem_append.mp waiting).imp_left fun new => ?_
        exact of_decide_eq_true (List.mem_filter.mp new).2
    have apart : other ≠ name := by
      rintro rfl
      rcases either with outside | waiting
      · exact outside (explored.pendingFound other List.mem_cons_self)
      · exact (List.nodup_cons.mp explored.distinct).1 waiting
    refine (List.mem_erase_of_ne apart).mpr (List.mem_filter.mpr ⟨isOwned, decide_eq_true ?_⟩)
    exact either.imp_right (List.mem_cons_of_mem name)
  have distinct : (machine.unfollowed (found.insertAll fresh) (fresh ++ pending)).Nodup :=
    machine.states.nodup_keys.filter _
  have shorter := (distinct.subperm included).length_le
  rw [List.length_erase_of_mem waits] at shorter
  have some := List.length_pos_of_mem waits
  omega

end Follow

/-- How a search may end: with what was found and what silent moves reach from the
pending names, or at a name that they reach and nobody owns. -/
def Ends (machine : Machine) (found : StringSet) (pending : List String)
    (outcome : Except Fault StringSet) : Prop :=
  (∃ result, outcome = .ok result ∧ machine.Settled result ∧
    ∀ name, name ∈ result ↔ name ∈ found ∨ ∃ origin ∈ pending, machine.Path origin [] name) ∨
  (∃ origin ∈ pending, ∃ missing, machine.Path origin [] missing ∧
    missing ∉ machine.states.keys ∧ outcome = .error (.unowned missing))

/-- What is reached after following a name is reached before. -/
theorem Ends.follow {found : StringSet} {name : String} {pending : List String} {state : State}
    {outcome : Except Fault StringSet} (explored : machine.Explored found (name :: pending))
    (owned : machine.states.find? name = some state) :
    let fresh := (state.targets epsilon).toList.filter fun target => target ∉ found
    machine.Ends (found.insertAll fresh) (fresh ++ pending) outcome →
      machine.Ends found (name :: pending) outcome := by
  intro fresh ends
  have followed : machine.Explored (found.insertAll fresh) (fresh ++ pending) :=
    explored.follow owned
  have fromName : ∀ origin ∈ fresh ++ pending, ∀ last, machine.Path origin [] last →
      ∃ origin ∈ name :: pending, machine.Path origin [] last := by
    intro origin member last path
    rcases List.mem_append.mp member with new | old
    · have leads := (List.mem_filter.mp new).1
      exact ⟨name, List.mem_cons_self, .silent ⟨state, owned, leads⟩ path⟩
    · exact ⟨origin, List.mem_cons_of_mem _ old, path⟩
  rcases ends with ⟨result, ended, settled, exactly⟩ |
    ⟨origin, member, missing, path, absent, failed⟩
  · refine Or.inl ⟨result, ended, settled, fun other => (exactly other).trans ⟨?_, ?_⟩⟩
    · intro given
      rcases given with member | ⟨origin, member, path⟩
      · rcases StringSet.mem_insertAll.mp member with new | old
        · exact Or.inr (fromName other (List.mem_append_left _ new) other (.here other))
        · exact Or.inl old
      · exact Or.inr (fromName origin member other path)
    · intro given
      rcases given with old | ⟨origin, member, path⟩
      · exact Or.inl (StringSet.mem_insertAll.mpr (Or.inr old))
      · have before := explored.pendingFound origin member
        exact followed.reach (StringSet.mem_insertAll.mpr (Or.inr before)) path
  · obtain ⟨origin, member, path⟩ := fromName origin member missing path
    exact Or.inr ⟨origin, member, missing, path, absent, failed⟩

section Rearranging

variable {found : StringSet} {pending other : List String} (same : pending.Perm other)

include same

theorem Explored.perm (explored : machine.Explored found pending) : machine.Explored found other where
  pendingFound name waits := explored.pendingFound name (same.mem_iff.mpr waits)
  distinct := same.nodup_iff.mp explored.distinct
  expanded name member settled := explored.expanded name member (same.mem_iff.not.mpr settled)

theorem unfollowed_perm : machine.unfollowed found pending = machine.unfollowed found other := by
  apply List.filter_congr
  intro key _
  rw [decide_eq_decide, same.mem_iff]

theorem ends_perm {outcome : Except Fault StringSet} :
    machine.Ends found pending outcome ↔ machine.Ends found other outcome := by
  simp only [Ends, same.mem_iff]

end Rearranging

/-- Where the first pending name is owned, it is followed and the schedule arranges what waits. -/
theorem run_exploreBy_cons (schedule : Schedule) (steps turn : Nat) (found : StringSet)
    {name : String} (pending : List String) {state : State}
    (owned : machine.states.find? name = some state) :
    (machine.exploreBy schedule (steps + 1) found (name :: pending)).run' turn =
      let fresh := (state.targets epsilon).toList.filter fun target => target ∉ found
      (machine.exploreBy schedule steps (found.insertAll fresh)
        (schedule.arrange turn (fresh ++ pending))).run' (turn + 1) := by
  simp only [exploreBy, stateNamed, owned]
  rfl

/-- **A search comes to an end**, whatever the order: where it may take as many steps as there are
owned names to follow, the bound does not show. -/
theorem exploreBy_searches (schedule : Schedule) {steps : Nat} {found : StringSet}
    {pending : List String} (explored : machine.Explored found pending)
    (enough : (machine.unfollowed found pending).length ≤ steps) (turn : Nat) :
    ∃ taken, machine.Searches schedule turn found pending taken
      ((machine.exploreBy schedule steps found pending).run' turn) := by
  induction steps generalizing found pending turn with
  | zero =>
      cases pending with
      | nil => exact ⟨[], .done turn found⟩
      | cons name pending =>
          refine ⟨[name], .stray (Table.find?_eq_none_iff.mpr ?_)⟩
          intro member
          have waits : name ∈ machine.unfollowed found (name :: pending) :=
            List.mem_filter.mpr ⟨member, decide_eq_true (Or.inr List.mem_cons_self)⟩
          have some := List.length_pos_of_mem waits
          omega
  | succ steps ih =>
      cases pending with
      | nil => exact ⟨[], .done turn found⟩
      | cons name pending =>
          cases owner : machine.states.find? name with
          | none =>
              have failed : (machine.exploreBy schedule (steps + 1) found (name :: pending)).run'
                  turn = .error (.unowned name) := by
                simp only [exploreBy, stateNamed, owner]
                rfl
              rw [failed]
              exact ⟨[name], .stray owner⟩
          | some state =>
              have fewer := unfollowed_follow explored owner
              have arranged := (schedule.rearranges turn (((state.targets epsilon).toList.filter
                fun target => target ∉ found) ++ pending)).symm
              have followed := (explored.follow owner).perm arranged
              obtain ⟨taken, onward⟩ := ih followed
                (by rw [← unfollowed_perm arranged]; omega) (turn + 1)
              rw [run_exploreBy_cons schedule steps turn found pending owner]
              exact ⟨name :: taken, .follow owner rfl onward⟩

section Searching

variable {schedule : Schedule} {turn : Nat} {found : StringSet} {pending taken : List String}
  {outcome : Except Fault StringSet}

/-- A search ends in one of two ways. -/
theorem Searches.ends (searches : machine.Searches schedule turn found pending taken outcome)
    (explored : machine.Explored found pending) : machine.Ends found pending outcome := by
  induction searches with
  | done turn found => exact Or.inl ⟨found, rfl, explored.finished⟩
  | @stray _ _ name _ unowned =>
      exact Or.inr ⟨name, List.mem_cons_self, name, .here name,
        Table.find?_eq_none_iff.mp unowned, rfl⟩
  | @follow turn _ _ pending _ fresh _ _ owned new onward ih =>
      -- only membership in the pending names counts, so they may be rearranged
      have arranged := (schedule.rearranges turn (fresh ++ pending)).symm
      subst new
      have ends := ih ((explored.follow owned).perm arranged)
      exact Ends.follow explored owned ((ends_perm arranged).mpr ends)

/-- **A search takes no name twice:** a name taken was found, and what is found does not come to
wait again. -/
theorem Searches.distinct (searches : machine.Searches schedule turn found pending taken outcome)
    (explored : machine.Explored found pending) :
    taken.Nodup ∧ ∀ name ∈ taken, name ∈ pending ∨ name ∉ found := by
  induction searches with
  | done turn found => exact ⟨List.nodup_nil, fun name => nofun⟩
  | @stray _ _ name pending unowned =>
      refine ⟨List.nodup_singleton name, fun other single => ?_⟩
      rw [List.mem_singleton.mp single]
      exact Or.inl List.mem_cons_self
  | @follow turn found name pending taken fresh _ _ owned new onward ih =>
      have arranged := (schedule.rearranges turn (fresh ++ pending)).symm
      subst new
      obtain ⟨distinct, later⟩ := ih ((explored.follow owned).perm arranged)
      have waits {other : String} (member : other ∈ taken) : other ∈ pending ∨ other ∉ found := by
        rcases later other member with next | outside
        · refine (List.mem_append.mp (arranged.mem_iff.mpr next)).symm.imp_right fun new => ?_
          exact of_decide_eq_true (List.mem_filter.mp new).2
        · exact Or.inr fun before => outside (StringSet.mem_insertAll.mpr (Or.inr before))
      refine ⟨List.nodup_cons.mpr ⟨fun again => ?_, distinct⟩, fun other member => ?_⟩
      · rcases waits again with old | outside
        · exact (List.nodup_cons.mp explored.distinct).1 old
        · exact outside (explored.pendingFound name List.mem_cons_self)
      · rcases List.mem_cons.mp member with rfl | behind
        · exact Or.inl List.mem_cons_self
        · exact (waits behind).imp_left (List.mem_cons_of_mem name)

end Searching

/-- A search ends in one of two ways, whatever the order, if it may take as many steps as there are
owned names to follow. -/
theorem exploreBy_ends (schedule : Schedule) {steps : Nat} {found : StringSet}
    {pending : List String} (explored : machine.Explored found pending)
    (enough : (machine.unfollowed found pending).length ≤ steps) (turn : Nat) :
    machine.Ends found pending ((machine.exploreBy schedule steps found pending).run' turn) := by
  obtain ⟨taken, searches⟩ := exploreBy_searches schedule explored enough turn
  exact searches.ends explored

/-- A search that begins with one name ends with exactly the names that silent moves reach from it,
or at one of these that has no owner. -/
theorem Ends.of_one {name : String} {outcome : Except Fault StringSet}
    (ends : machine.Ends (StringSet.ofList [name]) [name] outcome) :
    (∃ result, outcome = .ok result ∧ machine.Settled result ∧
      ∀ other, other ∈ result ↔ machine.Path name [] other) ∨
    (∃ missing, machine.Path name [] missing ∧ missing ∉ machine.states.keys ∧
      outcome = .error (.unowned missing)) := by
  rcases ends with ⟨result, ended, settled, exactly⟩ |
    ⟨origin, member, missing, path, absent, failed⟩
  · refine Or.inl ⟨result, ended, settled, fun other => (exactly other).trans ?_⟩
    simp only [StringSet.mem_ofList, List.mem_singleton, exists_eq_left]
    refine or_iff_right_of_imp fun itself => ?_
    exact itself ▸ .here other
  · rw [List.mem_singleton.mp member] at path
    exact Or.inr ⟨missing, path, absent, failed⟩

/-- A search begins with one name that waits. -/
theorem explored_one (machine : Machine) (name : String) :
    machine.Explored (StringSet.ofList [name]) [name] where
  pendingFound _ := StringSet.mem_ofList.mpr
  distinct := List.nodup_singleton name
  expanded _ member settled := absurd (StringSet.mem_ofList.mp member) settled

/-- Exploring is what a schedule comes to that leaves names as they are listed. -/
theorem explore_eq (steps turn : Nat) (found : StringSet) (pending : List String) :
    machine.explore steps found pending =
      (machine.exploreBy .asListed steps found pending).run' turn := by
  induction steps generalizing found pending turn with
  | zero => cases pending <;> rfl
  | succ steps ih =>
      cases pending with
      | nil => rfl
      | cons name pending =>
          cases owner : machine.states.find? name with
          | none =>
              simp only [explore, exploreBy, stateNamed, owner]
              rfl
          | some state =>
              rw [run_exploreBy_cons .asListed steps turn found pending owner, explore, stateNamed,
                owner]
              exact ih (turn + 1) _ _

theorem explore_ends {steps : Nat} {found : StringSet} {pending : List String}
    (explored : machine.Explored found pending)
    (enough : (machine.unfollowed found pending).length ≤ steps) :
    machine.Ends found pending (machine.explore steps found pending) := by
  rw [explore_eq steps 0]
  exact exploreBy_ends .asListed explored enough 0

/-- Extending a settled set adds what silent moves reach from a name, or fails at a
name that they reach and nobody owns. -/
theorem extend_cases {found : StringSet} (settled : machine.Settled found) (name : String) :
    (∃ result, machine.extend found name = .ok result ∧ machine.Settled result ∧
      ∀ other, other ∈ result ↔ other ∈ found ∨ machine.Path name [] other) ∨
    (∃ missing, machine.Path name [] missing ∧ missing ∉ machine.states.keys ∧
      machine.extend found name = .error (.unowned missing)) := by
  by_cases known : name ∈ found
  · refine Or.inl ⟨found, if_pos known, settled, fun other => ⟨Or.inl, fun either => ?_⟩⟩
    exact either.elim id fun path => settled.reach known path
  · have started : machine.extend found name =
        machine.explore machine.states.keys.length (found.insert name) [name] := if_neg known
    have explored : machine.Explored (found.insert name) [name] := by
      refine ⟨?_, List.nodup_singleton name, ?_⟩
      · intro other member
        exact StringSet.mem_insert.mpr (Or.inl (List.mem_singleton.mp member))
      · intro other member waitsNot
        have old := (StringSet.mem_insert.mp member).resolve_left fun same =>
          waitsNot (List.mem_singleton.mpr same)
        exact (settled other old).mono fun _ before => StringSet.mem_insert.mpr (Or.inr before)
    rw [started]
    rcases explore_ends explored (List.length_filter_le _ _) with
      ⟨result, ended, resultSettled, exactly⟩ | ⟨origin, member, missing, path, absent, failed⟩
    · refine Or.inl ⟨result, ended, resultSettled, fun other => (exactly other).trans ?_⟩
      simp only [List.mem_singleton, exists_eq_left, StringSet.mem_insert]
      constructor
      · intro given
        rcases given with (rfl | old) | path
        · exact Or.inr (.here other)
        · exact Or.inl old
        · exact Or.inr path
      · exact fun either => either.imp_left Or.inr
    · rw [List.mem_singleton.mp member] at path
      exact Or.inr ⟨missing, path, absent, failed⟩

end PatternAutomata.Machine
