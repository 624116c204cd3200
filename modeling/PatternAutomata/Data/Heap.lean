/-! # Heaps of shared values

A heap holds values that are reached through references. Several holders of one
reference see one value, and a change through any of them shows in all. Values
are never taken out, so a reference stays good; reading a reference that the heap
does not hold gives the default value, and changing it does nothing.
-/

namespace PatternAutomata

/-- A reference to a value of a heap. -/
@[ext]
structure Ref (α : Type) where
  /-- The place of the value, counted from the oldest. -/
  index : Nat
deriving DecidableEq, Inhabited

/-- A heap of shared values. -/
@[ext]
structure Heap (α : Type) where
  /-- The values, oldest first. -/
  cells : Array α := #[]
deriving Inhabited

namespace Heap

variable {α : Type}

instance : Membership (Ref α) (Heap α) := ⟨fun heap ref => ref.index < heap.cells.size⟩

instance (ref : Ref α) (heap : Heap α) : Decidable (ref ∈ heap) :=
  inferInstanceAs (Decidable (ref.index < heap.cells.size))

theorem mem_def {ref : Ref α} {heap : Heap α} : ref ∈ heap ↔ ref.index < heap.cells.size := Iff.rfl

/-- The value behind a reference. -/
def get [Inhabited α] (heap : Heap α) (ref : Ref α) : α :=
  heap.cells.getD ref.index default

/-- The reference that the next value will have. -/
def fresh (heap : Heap α) : Ref α :=
  ⟨heap.cells.size⟩

/-- Adds a value, which gets the reference `fresh`. -/
def add (heap : Heap α) (value : α) : Heap α :=
  ⟨heap.cells.push value⟩

/-- Changes the value behind a reference. -/
def change [Inhabited α] (heap : Heap α) (ref : Ref α) (update : α → α) : Heap α :=
  ⟨heap.cells.setIfInBounds ref.index (update (heap.get ref))⟩

theorem fresh_not_mem (heap : Heap α) : heap.fresh ∉ heap :=
  Nat.lt_irrefl _

theorem ne_fresh_of_mem {heap : Heap α} {ref : Ref α} (member : ref ∈ heap) : ref ≠ heap.fresh :=
  fun same => heap.fresh_not_mem (same ▸ member)

theorem mem_add {heap : Heap α} {value : α} {ref : Ref α} :
    ref ∈ heap.add value ↔ ref ∈ heap ∨ ref = heap.fresh := by
  simp only [mem_def, add, Array.size_push, Ref.ext_iff, fresh]
  exact Nat.lt_succ_iff_lt_or_eq

variable [Inhabited α]

theorem get_of_not_mem {heap : Heap α} {ref : Ref α} (outside : ref ∉ heap) :
    heap.get ref = default := by
  simp only [get, Array.getD_eq_getD_getElem?]
  rw [Array.getElem?_eq_none (Nat.le_of_not_lt outside)]
  rfl

@[simp] theorem get_add_fresh (heap : Heap α) (value : α) :
    (heap.add value).get heap.fresh = value := by
  simp [get, add, fresh]

theorem get_add_of_ne {heap : Heap α} {value : α} {ref : Ref α} (other : ref ≠ heap.fresh) :
    (heap.add value).get ref = heap.get ref := by
  have apart : ref.index ≠ heap.cells.size := fun same => other (Ref.ext same)
  simp [get, add, Array.getElem?_push, apart]

theorem get_add_of_mem {heap : Heap α} {value : α} {ref : Ref α} (member : ref ∈ heap) :
    (heap.add value).get ref = heap.get ref :=
  get_add_of_ne (ne_fresh_of_mem member)

@[simp] theorem mem_change {heap : Heap α} {ref other : Ref α} {update : α → α} :
    other ∈ heap.change ref update ↔ other ∈ heap := by
  simp [mem_def, change]

@[simp] theorem fresh_change (heap : Heap α) (ref : Ref α) (update : α → α) :
    (heap.change ref update).fresh = heap.fresh := by
  simp [fresh, change]

theorem get_change_self {heap : Heap α} {ref : Ref α} (member : ref ∈ heap) (update : α → α) :
    (heap.change ref update).get ref = update (heap.get ref) := by
  have inside : ref.index < heap.cells.size := member
  simp [get, change, inside]

theorem get_change_of_ne {heap : Heap α} {ref other : Ref α} (apart : other ≠ ref)
    (update : α → α) : (heap.change ref update).get other = heap.get other := by
  have differ : ref.index ≠ other.index := fun same => apart (Ref.ext same.symm)
  simp [get, change, differ]

end Heap

end PatternAutomata
