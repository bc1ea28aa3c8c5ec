import Lancet.Stats

/-! When the sorts by `long_compare` and `sample_cmp_latency` leave their arrays ascending.
Both functions narrow a 64-bit difference to an `int`. -/
namespace Lancet.SortOrders
open Foundation Timestamping Stats

/-- The narrowed difference of two values keeps the sign. -/
def Signed (a b : UInt64) : Prop := 0 < (a - b).toNat % 2^32 ∧ (a - b).toNat % 2^32 < 2^31

def Narrow (values : List UInt64) : Prop := ∀ a ∈ values, ∀ b ∈ values, b < a → Signed a b

theorem longCompare_self (a : UInt64) : longCompare a a = 0 := by
  simp [longCompare,toInt]

theorem sampleCmpLatency_eq : sampleCmpLatency = fun a b => longCompare a.nsec b.nsec := rfl

theorem longCompare_signed {a b : UInt64} : Signed a b ↔ 0 < longCompare a b := by
  rw [Signed,longCompare,toInt,Int.bmod]
  omega

theorem longCompare_back {a b : UInt64} (signed : Signed a b) : longCompare b a ≤ 0 := by
  rw [Signed,UInt64.toNat_sub] at signed
  rw [longCompare,toInt,Int.bmod,UInt64.toNat_sub]
  have first := a.toNat_lt
  have second := b.toNat_lt
  omega

theorem longCompare_order {values : List UInt64} (narrow : Narrow values) {a b : UInt64} (inA : a ∈ values) (inB : b ∈ values) :
    longCompare a b ≤ 0 ↔ a ≤ b := by
  rcases Nat.lt_trichotomy a.toNat b.toNat with less | same | more
  · have back := longCompare_back (narrow b inB a inA less)
    exact iff_of_true back (Nat.le_of_lt less)
  · obtain rfl := UInt64.toNat_inj.mp same
    rw [longCompare_self]
    simp
  · have greater := longCompare_signed.mp (narrow a inA b inB more)
    exact iff_of_false (not_le.mpr greater) (not_le.mpr more)

section Keyed
variable {α : Type} (key : α → UInt64) {items : List α}

theorem keyed_orders (narrow : Narrow (items.map key)) : Orders (fun a b => longCompare (key a) (key b)) items := by
  have compares {a b : α} (inA : a ∈ items) (inB : b ∈ items) : longCompare (key a) (key b) ≤ 0 ↔ key a ≤ key b :=
    longCompare_order narrow (List.mem_map_of_mem inA) (List.mem_map_of_mem inB)
  constructor
  · intro a inA b inB
    rw [compares inA inB,compares inB inA]
    exact UInt64.le_total _ _
  · intro a inA b inB c inC
    rw [compares inA inB,compares inB inC,compares inA inC]
    exact UInt64.le_trans

/-- What the sort of an array is for. -/
def Ascending (sorted items : List α) : Prop := sorted.Perm items ∧ sorted.Pairwise (fun a b => key a ≤ key b)

theorem keyed_sorts_iff (items : List α) :
    (∀ qsort : Qsort, Ascending key (qsort.sort (fun a b => longCompare (key a) (key b)) items) items) ↔
      Narrow (items.map key) := by
  constructor
  · intro ascends _ listedA _ listedB less
    obtain ⟨a,inA,rfl⟩ := List.mem_map.mp listedA
    obtain ⟨b,inB,rfl⟩ := List.mem_map.mp listedB
    by_contra unsigned
    have differ : b ≠ a := by
      rintro rfl
      exact UInt64.lt_irrefl _ less
    have compared : longCompare (key a) (key b) ≤ 0 := by
      rw [longCompare_signed] at unsigned
      exact not_lt.mp unsigned
    obtain ⟨qsort,first,rest,sorted,later⟩ :=
      @Qsort.exists_before _ (fun a b => longCompare (key a) (key b)) _ _ _ inA inB differ compared
    have ordered := (ascends qsort).2
    rw [sorted,List.pairwise_append,List.pairwise_cons] at ordered
    exact UInt64.not_le.mpr less (ordered.2.1.1 b later)
  · intro narrow qsort
    refine ⟨qsort.perm _ items,?_⟩
    apply (qsort.sorted _ items (keyed_orders key narrow)).imp_of_mem
    intro a b inA inB compared
    have inA' := (qsort.mem _ _ _).mp inA
    have inB' := (qsort.mem _ _ _).mp inB
    exact (longCompare_order narrow (List.mem_map_of_mem inA') (List.mem_map_of_mem inB')).mp compared

end Keyed

/-- Both sorts work on an array just when no two of its values have a difference that is
turned over or lost in an `int`. -/
theorem sorts_ascend_iff (values : List UInt64) (samples : List LatSample) :
    ((∀ qsort : Qsort, Ascending id (qsort.sort longCompare values) values) ↔ Narrow values) ∧
      ((∀ qsort : Qsort, Ascending (·.nsec) (qsort.sort sampleCmpLatency samples) samples) ↔ Narrow (samples.map (·.nsec))) := by
  constructor
  · have sorts := keyed_sorts_iff id values
    rwa [List.map_id] at sorts
  · rw [sampleCmpLatency_eq]
    exact keyed_sorts_iff _ samples

/-- Three seconds and a microsecond stay in the wrong order. -/
theorem three_seconds_misplaced :
    Qsort.insertion.sort longCompare [3000000000,1000] = [3000000000,1000] ∧
      Qsort.insertion.sort sampleCmpLatency [⟨3000000000,Timespec.zero⟩,⟨1000,Timespec.zero⟩] =
        [⟨3000000000,Timespec.zero⟩,⟨1000,Timespec.zero⟩] ∧
      ¬([3000000000,1000] : List UInt64).Pairwise (· ≤ ·) := by
  decide

end Lancet.SortOrders
