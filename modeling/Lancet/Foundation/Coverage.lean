import Mathlib.Tactic.Common

/-! A stream of entries that is acknowledged by segments. Segments come in stream order and
each ends at an offset; an entry is covered by the first segment that reaches its end. -/
namespace Foundation

variable {β : Type} {endOf : β → Nat}

def covering (endOf : β → Nat) (segments : List β) (offset : Nat) : Option β :=
  segments.find? (fun segment => offset ≤ endOf segment)

theorem covering_append {segments : List β} {offset : Nat} {segment : β}
    (found : covering endOf segments offset = some segment) (more : List β) :
    covering endOf (segments ++ more) offset = some segment := by
  rw [covering,List.find?_append]
  rw [covering] at found
  rw [found,Option.some_or]

theorem covering_first {done : List β} {next : β} {offset : Nat} (before : ∀ segment ∈ done, endOf segment < offset)
    (covers : offset ≤ endOf next) (more : List β) :
    covering endOf (done ++ next :: more) offset = some next := by
  have skipped : done.find? (fun segment => offset ≤ endOf segment) = none := by
    rw [List.find?_eq_none]
    intro segment member
    rw [decide_eq_true_eq]
    exact Nat.not_le.mpr (before segment member)
  have chosen : (next :: more).find? (fun segment => offset ≤ endOf segment) = some next :=
    List.find?_cons_of_pos (decide_eq_true covers)
  rw [covering,List.find?_append,skipped,Option.none_or,chosen]

/-- The entries below `front` are covered by the segments and those from `front` on are not. -/
structure Boundary (endOf : β → Nat) (ends : Nat → Nat) (done : List β) (front total : Nat) : Prop where
  covered : ∀ index, index < front → ∃ segment ∈ done, ends index ≤ endOf segment
  beyond : ∀ index, front ≤ index → index < total → ∀ segment ∈ done, endOf segment < ends index

namespace Boundary

variable {ends : Nat → Nat} {done : List β} {front total : Nat}

theorem initially (total : Nat) : Boundary endOf ends [] 0 total :=
  ⟨fun index below => absurd below (Nat.not_lt_zero index),fun _ _ _ _ member => absurd member List.not_mem_nil⟩

theorem first (boundary : Boundary endOf ends done front total) {index : Nat} {next : β} (above : front ≤ index)
    (below : index < total) (covers : ends index ≤ endOf next) (more : List β) :
    covering endOf (done ++ next :: more) (ends index) = some next :=
  covering_first (boundary.beyond index above below) covers more

theorem advance {front' : Nat} {next : β} (boundary : Boundary endOf ends done front total) (forward : front ≤ front')
    (covers : ∀ index, front ≤ index → index < front' → ends index ≤ endOf next)
    (stops : ∀ index, front' ≤ index → index < total → endOf next < ends index) :
    Boundary endOf ends (done ++ [next]) front' total := by
  constructor
  · intro index below
    rcases Nat.lt_or_ge index front with old | new
    · obtain ⟨segment,member,reaches⟩ := boundary.covered index old
      exact ⟨segment,List.mem_append_left _ member,reaches⟩
    · exact ⟨next,by simp,covers index new below⟩
  · intro index above below segment member
    rcases List.mem_append.mp member with old | new
    · exact boundary.beyond index (Nat.le_trans forward above) below segment old
    · rw [List.mem_singleton.mp new]
      exact stops index above below

theorem grow {ends' : Nat → Nat} (boundary : Boundary endOf ends done front total) (ordered : front ≤ total)
    (same : ∀ index, index < total → ends' index = ends index) (last : ∀ segment ∈ done, endOf segment < ends' total) :
    Boundary endOf ends' done front (total + 1) := by
  constructor
  · intro index below
    rw [same index (Nat.lt_of_lt_of_le below ordered)]
    exact boundary.covered index below
  · intro index above below
    rcases Nat.lt_succ_iff_lt_or_eq.mp below with earlier | rfl
    · rw [same index earlier]
      exact boundary.beyond index above earlier
    · exact last

/-- A segment past all earlier ones that ends within the stream covers the entry at the front. -/
theorem open_front {next : β} (boundary : Boundary endOf ends done front total) (ordered : front ≤ total)
    (later : ∀ segment ∈ done, endOf segment < endOf next) (inside : ∃ index, index < total ∧ endOf next ≤ ends index)
    (monotone : ∀ i j, i ≤ j → ends i ≤ ends j) : front < total := by
  obtain ⟨index,below,reaches⟩ := inside
  by_contra closed
  obtain ⟨segment,member,covers⟩ := boundary.covered (total - 1) (by omega)
  have last := monotone index (total - 1) (by omega)
  have order := later segment member
  omega

end Boundary
end Foundation
