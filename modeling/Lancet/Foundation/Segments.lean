import Mathlib.Tactic.Common

/-! A stream that arrives in segments. A read takes what its size allows of the first segment
that is not used up and never goes on into the next, so it is short when a segment ends
inside what it is after. -/
namespace Foundation.Segments

variable {α : Type}

def read (size : Nat) : List (List α) → List α × List (List α)
  | [] => ([],[])
  | arrived :: later => (arrived.take size,if size < arrived.length then arrived.drop size :: later else later)

/-- Each segment holds whole parts only. -/
def Whole (parts segments : List (List α)) : Prop :=
  ∃ groups : List (List (List α)), groups.flatten = parts ∧ groups.map List.flatten = segments

/-- The segments carry exactly these parts, none of either empty. -/
structure Carries (segments parts : List (List α)) : Prop where
  arrived : ∀ segment ∈ segments, segment ≠ []
  filled : ∀ part ∈ parts, part ≠ []
  stream : segments.flatten = parts.flatten

theorem flatten_eq_nil_of_filled {parts : List (List α)} (filled : ∀ part ∈ parts, part ≠ []) (empty : parts.flatten = []) :
    parts = [] := by
  cases parts with
  | nil => rfl
  | cons part parts =>
    have first : part = [] := List.flatten_eq_nil_iff.mp empty part List.mem_cons_self
    exact absurd first (filled part List.mem_cons_self)

theorem Carries.ended {segments : List (List α)} (carries : Carries segments []) : segments = [] :=
  flatten_eq_nil_of_filled carries.arrived carries.stream

theorem whole_nil : Whole ([] : List (List α)) [] := ⟨[],rfl,rfl⟩

/-- A part at the start of a segment can be taken off both. -/
theorem whole_append {part rest : List α} {parts later : List (List α)} (filled : ∀ other ∈ part :: parts, other ≠ []) :
    Whole (part :: parts) ((part ++ rest) :: later) ↔ Whole parts (if rest = [] then later else rest :: later) := by
  have nonempty : part ≠ [] := filled part List.mem_cons_self
  constructor
  · rintro ⟨groups,joined,cut⟩
    cases groups with
    | nil => cases cut
    | cons group groups =>
      obtain ⟨first,others⟩ := List.cons.inj cut
      cases group with
      | nil => exact absurd (List.append_eq_nil_iff.mp first.symm).1 nonempty
      | cons head group =>
        obtain ⟨rfl,joining⟩ := List.cons.inj joined
        have joining : group ++ groups.flatten = parts := joining
        have remaining : group.flatten = rest := List.append_cancel_left first
        split
        next ends =>
          have members : ∀ other ∈ group, other ≠ [] := by
            intro other member
            refine filled other (List.mem_cons_of_mem _ ?_)
            rw [← joining]
            exact List.mem_append_left _ member
          have empty : group = [] := flatten_eq_nil_of_filled members (remaining.trans ends)
          subst empty
          exact ⟨groups,joining,others⟩
        next => exact ⟨group :: groups,joining,by rw [List.map_cons,others,remaining]⟩
  · rintro ⟨groups,joined,cut⟩
    split at cut
    next ends =>
      refine ⟨[part] :: groups,?_,?_⟩
      · rw [List.flatten_cons,joined]
        rfl
      · rw [List.map_cons,cut,ends]
        rfl
    next =>
      cases groups with
      | nil => cases cut
      | cons group groups =>
        obtain ⟨first,others⟩ := List.cons.inj cut
        refine ⟨(part :: group) :: groups,?_,?_⟩
        · rw [← joined]
          rfl
        · rw [List.map_cons,others,List.flatten_cons,first]

theorem not_whole_of_shorter {part arrived : List α} {parts later : List (List α)} (nonempty : arrived ≠ [])
    (shorter : arrived.length < part.length) : ¬Whole (part :: parts) (arrived :: later) := by
  rintro ⟨groups,joined,cut⟩
  cases groups with
  | nil => cases cut
  | cons group groups =>
    obtain ⟨first,-⟩ := List.cons.inj cut
    cases group with
    | nil => exact nonempty first.symm
    | cons head group =>
      obtain ⟨rfl,-⟩ := List.cons.inj joined
      rw [← first,List.flatten_cons,List.length_append] at shorter
      exact Nat.not_lt.mpr (Nat.le_add_right _ _) shorter

theorem Carries.nonempty {segments parts : List (List α)} {part : List α} (carries : Carries segments (part :: parts)) :
    ∃ arrived later, segments = arrived :: later := by
  cases segments with
  | nil =>
    have empty := carries.stream.symm
    rw [List.flatten_cons] at empty
    exact absurd (List.append_eq_nil_iff.mp empty).1 (carries.filled part List.mem_cons_self)
  | cons arrived later => exact ⟨arrived,later,rfl⟩

theorem read_nonempty {segments parts : List (List α)} {part : List α} (carries : Carries segments (part :: parts)) :
    (read part.length segments).1 ≠ [] := by
  have filled : part ≠ [] := carries.filled part List.mem_cons_self
  obtain ⟨arrived,later,rfl⟩ := carries.nonempty
  have nonempty : arrived ≠ [] := carries.arrived arrived List.mem_cons_self
  rw [read,ne_eq,List.take_eq_nil_iff,not_or]
  exact ⟨fun zero => filled (List.eq_nil_of_length_eq_zero zero),nonempty⟩

/-- A read for the next part either gets just that part, or a segment ends inside it. -/
theorem read_part {segments parts : List (List α)} {part : List α} (carries : Carries segments (part :: parts)) :
    (∃ rest, read part.length segments = (part,rest) ∧ Carries rest parts ∧
      (Whole (part :: parts) segments ↔ Whole parts rest)) ∨
    ((read part.length segments).1.length ≠ part.length ∧ ¬Whole (part :: parts) segments) := by
  have filled : ∀ other ∈ parts, other ≠ [] := fun other member => carries.filled other (List.mem_cons_of_mem _ member)
  obtain ⟨first,later,rfl⟩ := carries.nonempty
  have nonempty : first ≠ [] := carries.arrived first List.mem_cons_self
  have arrived : ∀ segment ∈ later, segment ≠ [] :=
    fun segment member => carries.arrived segment (List.mem_cons_of_mem _ member)
  have stream := carries.stream
  rw [List.flatten_cons,List.flatten_cons] at stream
  by_cases shorter : first.length < part.length
  · refine .inr ⟨?_,not_whole_of_shorter nonempty shorter⟩
    rw [read,List.length_take,Nat.min_eq_right (Nat.le_of_lt shorter)]
    exact Nat.ne_of_lt shorter
  · obtain ⟨rest,rfl⟩ : part <+: first := by
      refine List.prefix_of_prefix_length_le ?_ (List.prefix_append first later.flatten) (Nat.not_lt.mp shorter)
      rw [stream]
      exact List.prefix_append _ _
    rw [List.append_assoc] at stream
    have tail : rest ++ later.flatten = parts.flatten := List.append_cancel_left stream
    refine .inl ⟨if rest = [] then later else rest :: later,?_,?_,whole_append carries.filled⟩
    · rw [read,List.take_left,List.drop_left,List.length_append]
      by_cases ends : rest = []
      · rw [if_pos ends,ends,if_neg (show ¬part.length < part.length + ([] : List α).length from Nat.lt_irrefl _)]
      · rw [if_neg ends,if_pos (Nat.lt_add_of_pos_right (List.length_pos_iff.mpr ends))]
    · split
      next ends =>
        subst ends
        exact ⟨arrived,filled,tail⟩
      next more =>
        refine ⟨?_,filled,tail⟩
        intro segment member
        rcases List.mem_cons.mp member with rfl | member
        · exact more
        · exact arrived segment member

end Foundation.Segments
