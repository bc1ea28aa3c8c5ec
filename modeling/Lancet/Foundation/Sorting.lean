import Mathlib.Data.List.Sort
import Mathlib.Data.List.Rotate
import Mathlib.Data.List.TakeWhile

/-! The contract of C `qsort`: a permutation in which, for a comparison function
that orders the elements present, no element compares greater than a later one.
Elements that compare equal may come out in any order. -/
namespace Foundation

/-- The comparison function is a total preorder on the elements of a list. Only the
sign "greater" counts, so a function that never answers "less" may qualify. -/
def Orders {α : Type} (compare : α → α → Int) (items : List α) : Prop :=
  (∀ a ∈ items, ∀ b ∈ items, compare a b ≤ 0 ∨ compare b a ≤ 0) ∧
    ∀ a ∈ items, ∀ b ∈ items, ∀ c ∈ items, compare a b ≤ 0 → compare b c ≤ 0 → compare a c ≤ 0

structure Qsort where
  sort : {α : Type} → (α → α → Int) → List α → List α
  perm : ∀ {α : Type} (compare : α → α → Int) (items : List α), (sort compare items).Perm items
  sorted : ∀ {α : Type} (compare : α → α → Int) (items : List α), Orders compare items →
    (sort compare items).Pairwise (fun a b => compare a b ≤ 0)

theorem Orders.mono {α : Type} {compare : α → α → Int} {items items' : List α} (orders : Orders compare items)
    (present : ∀ a ∈ items', a ∈ items) : Orders compare items' :=
  ⟨fun a inA b inB => orders.1 a (present a inA) b (present b inB),
    fun a inA b inB c inC => orders.2 a (present a inA) b (present b inB) c (present c inC)⟩

namespace Qsort

theorem length (qsort : Qsort) {α : Type} (compare : α → α → Int) (items : List α) :
    (qsort.sort compare items).length = items.length :=
  (qsort.perm compare items).length_eq

theorem mem (qsort : Qsort) {α : Type} (compare : α → α → Int) (items : List α) (a : α) :
    a ∈ qsort.sort compare items ↔ a ∈ items :=
  (qsort.perm compare items).mem_iff

private theorem insertion_sorted {α : Type} (compare : α → α → Int) (items : List α)
    (orders : Orders compare items) :
    (items.insertionSort (fun a b => compare a b ≤ 0)).Pairwise (fun a b => compare a b ≤ 0) := by
  let present := fun a b : {a // a ∈ items} => compare a.val b.val ≤ 0
  have total : Std.Total present := ⟨fun a b => orders.1 a.val a.property b.val b.property⟩
  have transitive : IsTrans _ present :=
    ⟨fun a b c => orders.2 a.val a.property b.val b.property c.val c.property⟩
  have sorted : (items.attach.insertionSort present).Pairwise present :=
    List.pairwise_insertionSort present items.attach
  have mapped := List.map_insertionSort present (fun a b => compare a b ≤ 0) Subtype.val items.attach
    (fun a _ b _ => Iff.rfl)
  rw [List.attach_map_subtype_val] at mapped
  rw [← mapped]
  exact List.pairwise_map.mpr sorted

/-- Insertion sort meets the contract. -/
def insertion : Qsort where
  sort compare items := items.insertionSort (fun a b => compare a b ≤ 0)
  perm _ items := List.perm_insertionSort _ items
  sorted _ _ orders := insertion_sorted _ _ orders

/-- The same from another element on. -/
def rotated (turn : Nat) : Qsort where
  sort compare items := (items.rotate turn).insertionSort (fun a b => compare a b ≤ 0)
  perm _ items := (List.perm_insertionSort _ _).trans (List.rotate_perm items turn)
  sorted _ _ orders := insertion_sorted _ _ (orders.mono fun _ inside => List.mem_rotate.mp inside)

/-- Some sort leaves an element before each one that it does not compare greater than. -/
theorem exists_before {α : Type} {compare : α → α → Int} {items : List α} {a b : α} (inA : a ∈ items) (inB : b ∈ items)
    (differ : b ≠ a) (compared : compare a b ≤ 0) :
    ∃ qsort : Qsort, ∃ first rest, qsort.sort compare items = first ++ a :: rest ∧ b ∈ rest := by
  obtain ⟨pre,post,rfl⟩ := List.append_of_mem inA
  have turned : (pre ++ a :: post).rotate pre.length = a :: (post ++ pre) := by
    rw [List.rotate_append_length_eq,List.cons_append]
  have others : b ∈ (post ++ pre).insertionSort (fun a b => compare a b ≤ 0) := by
    rw [List.mem_insertionSort,List.mem_append,or_comm]
    simpa [differ] using inB
  have sorted : (rotated pre.length).sort compare (pre ++ a :: post) = ((a :: (post ++ pre)).insertionSort fun a b => compare a b ≤ 0) := by
    rw [← turned]
    rfl
  rw [List.insertionSort_cons_eq_take_drop] at sorted
  refine ⟨rotated pre.length,_,_,sorted,?_⟩
  have split := List.takeWhile_append_dropWhile (p := fun b => ¬compare a b ≤ 0)
    (l := (post ++ pre).insertionSort (fun a b => compare a b ≤ 0))
  rw [← split,List.mem_append] at others
  rcases others with earlier | later
  · have greater := List.mem_takeWhile_imp earlier
    simp [compared] at greater
  · exact later

end Qsort
end Foundation
