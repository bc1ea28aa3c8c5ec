import Mathlib.Data.Nat.ModEq

/-! The live entries of a cyclic buffer. A sequence is read at every index and written
cyclically; a window says what the entries of an interval of indices are. -/
namespace Foundation

variable {α : Type} {size : Nat}

/-- `after` is `before` with one value written at an index, and at every index that
shares its residue. -/
def Overwrites (size : Nat) (before after : Nat → α) (index : Nat) (value : α) : Prop :=
  ∀ other, after other = if index % size = other % size then value else before other

def Window (entry : Nat → α → Prop) (read : Nat → α) (low high : Nat) : Prop :=
  ∀ index, low ≤ index → index < high → entry index (read index)

theorem residue_injective {low first second : Nat} (firstLow : low ≤ first) (secondLow : low ≤ second)
    (firstHigh : first < low + size) (secondHigh : second < low + size)
    (same : first % size = second % size) : first = second := by
  rcases Nat.le_total first second with ordered | ordered
  · have divides : size ∣ second - first := (Nat.modEq_iff_dvd' ordered).mp same
    have zero : second - first = 0 := Nat.eq_zero_of_dvd_of_lt divides (by omega)
    omega
  · have divides : size ∣ first - second := (Nat.modEq_iff_dvd' ordered).mp same.symm
    have zero : first - second = 0 := Nat.eq_zero_of_dvd_of_lt divides (by omega)
    omega

theorem Overwrites.self {before after : Nat → α} {index : Nat} {value : α}
    (written : Overwrites size before after index value) : after index = value := by
  rw [written,if_pos rfl]

theorem Overwrites.near {before after : Nat → α} {index other low : Nat} {value : α}
    (written : Overwrites size before after index value) (indexLow : low ≤ index) (otherLow : low ≤ other)
    (indexHigh : index < low + size) (otherHigh : other < low + size) (different : other ≠ index) :
    after other = before other := by
  have residues : index % size ≠ other % size := fun same =>
    different (residue_injective indexLow otherLow indexHigh otherHigh same).symm
  rw [written,if_neg residues]

namespace Window

variable {entry : Nat → α → Prop} {read before after : Nat → α} {low high : Nat}

theorem empty (collapsed : high ≤ low) : Window entry read low high := by
  intro index above below
  omega

theorem narrow {low' high' : Nat} (window : Window entry read low high) (lower : low ≤ low')
    (upper : high' ≤ high) : Window entry read low' high' :=
  fun index above below => window index (lower.trans above) (below.trans_le upper)

theorem weaken {entry' : Nat → α → Prop} (window : Window entry read low high)
    (permits : ∀ index value, index < high → entry index value → entry' index value) :
    Window entry' read low high :=
  fun index above below => permits index _ below (window index above below)

theorem extend (window : Window entry read low high) (last : entry high (read high)) :
    Window entry read low (high + 1) := by
  intro index above below
  rcases Nat.lt_succ_iff_lt_or_eq.mp below with earlier | rfl
  · exact window index above earlier
  · exact last

/-- A write inside the span of the buffer keeps a window when the value fits there. -/
theorem overwrite {index : Nat} {value : α} (window : Window entry before low high)
    (written : Overwrites size before after index value) (indexLow : low ≤ index)
    (indexHigh : index < low + size) (span : high ≤ low + size) (fits : entry index value) :
    Window entry after low high := by
  intro other above below
  by_cases same : other = index
  · rw [same,written.self]
    exact fits
  · rw [written.near indexLow above indexHigh (by omega) same]
    exact window other above below

theorem push {value : α} (window : Window entry before low high)
    (written : Overwrites size before after high value) (ordered : low ≤ high) (room : high < low + size)
    (fits : entry high value) : Window entry after low (high + 1) := by
  apply Window.extend
  · exact window.overwrite written ordered room room.le fits
  · rw [written.self]
    exact fits

end Window
end Foundation
