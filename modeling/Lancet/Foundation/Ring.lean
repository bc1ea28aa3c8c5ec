import Lancet.Foundation.Window
import Mathlib.Order.Interval.Finset.Nat

/-! A cyclic buffer that keeps the latest entries of a sequence. New entries overwrite the
oldest, so read in any order the buffer holds the end of the sequence. -/
namespace Foundation

variable {ε α : Type} {fits : ε → α → Prop} {capacity : Nat} {read : Nat → α} {entries : List ε}

/-- The slots of the last `capacity` entries hold values that fit them. -/
def Keeps (fits : ε → α → Prop) (capacity : Nat) (read : Nat → α) (entries : List ε) : Prop :=
  Window (fun index value => ∃ entry, entries[index]? = some entry ∧ fits entry value)
    (fun index => read (index % capacity)) (entries.length - capacity) entries.length

theorem Keeps.empty : Keeps fits capacity read [] := Window.empty (Nat.zero_le _)

theorem Keeps.push {read' : Nat → α} {entry : ε} (value : α) (keeps : Keeps fits capacity read entries)
    (positive : 0 < capacity) (fit : fits entry value)
    (written : ∀ slot, read' slot = if slot = entries.length % capacity then value else read slot) :
    Keeps fits capacity read' (entries ++ [entry]) := by
  have overwrites : Overwrites capacity (fun index => read (index % capacity)) (fun index => read' (index % capacity))
      entries.length value := by
    intro other
    dsimp only
    rw [written]
    by_cases same : other % capacity = entries.length % capacity
    · rw [if_pos same,if_pos same.symm]
    · rw [if_neg same,if_neg (Ne.symm same)]
  have older : Window (fun index value => ∃ held, (entries ++ [entry])[index]? = some held ∧ fits held value)
      (fun index => read (index % capacity)) (entries.length + 1 - capacity) entries.length := by
    refine (Window.narrow keeps (Nat.sub_le_sub_right (Nat.le_succ _) _) le_rfl).weaken ?_
    rintro index value below ⟨held,present,fit⟩
    exact ⟨held,by rw [List.getElem?_append_left below,present],fit⟩
  have newest : (entries ++ [entry])[entries.length]? = some entry := List.getElem?_concat_length
  rw [Keeps,List.length_append,List.length_singleton]
  exact older.push overwrites (by omega) (by omega) ⟨entry,newest,fit⟩

theorem range_mod_perm (start size : Nat) :
    ((List.range size).map (fun index => (start + index) % size)).Perm (List.range size) := by
  have wrapped : ((List.range' start (start + size - start)).map (· % size) : Multiset Nat) = List.range size :=
    Nat.multiset_Ico_map_mod start size
  rw [Nat.add_sub_cancel_left,List.range'_eq_map_range,List.map_map] at wrapped
  exact Multiset.coe_eq_coe.mp wrapped

/-- The slots of the latest entries, in their order. -/
theorem Keeps.latest (keeps : Keeps fits capacity read entries) {size : Nat} (written : size ≤ entries.length) (room : size ≤ capacity) :
    List.Forall₂ fits (entries.drop (entries.length - size))
      ((List.range size).map fun index => read ((entries.length - size + index) % capacity)) := by
  rw [List.forall₂_iff_get]
  refine ⟨?_,fun index below inside => ?_⟩
  · rw [List.length_drop,List.length_map,List.length_range]
    omega
  · rw [List.length_drop] at below
    obtain ⟨entry,present,fit⟩ := keeps (entries.length - size + index) (by omega) (by omega)
    simp only [List.get_eq_getElem,List.getElem_drop,List.getElem_map,List.getElem_range]
    obtain ⟨_,here⟩ := List.getElem?_eq_some_iff.mp present
    rw [here]
    exact fit

/-- Slot by slot the buffer holds a permutation of the values of the last entries. -/
theorem Keeps.held (keeps : Keeps fits capacity read entries) :
    ∃ kept, ((List.range (min entries.length capacity)).map read).Perm kept ∧
      List.Forall₂ fits (entries.drop (entries.length - capacity)) kept := by
  have latest := keeps.latest (Nat.min_le_left entries.length capacity) (Nat.min_le_right _ _)
  rw [show entries.length - min entries.length capacity = entries.length - capacity by omega] at latest
  refine ⟨_,?_,latest⟩
  rcases Nat.le_total entries.length capacity with short | long
  · rw [Nat.min_eq_left short,Nat.sub_eq_zero_of_le short]
    have same : ∀ index ∈ List.range entries.length, read index = read ((0 + index) % capacity) := by
      intro index inside
      rw [Nat.zero_add,Nat.mod_eq_of_lt (Nat.lt_of_lt_of_le (List.mem_range.mp inside) short)]
    rw [List.map_congr_left same]
  · rw [Nat.min_eq_right long]
    have rotated := (range_mod_perm (entries.length - capacity) capacity).map read
    rw [List.map_map] at rotated
    exact rotated.symm

end Foundation
