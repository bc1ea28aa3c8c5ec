import Lancet.Foundation.Gaps
import Lancet.Stats

/-! When `check_ia` gets through: what the retained transmissions have to be like for none of
its assertions to fail. -/
namespace Lancet.InterArrivals
open Foundation Agent Timestamping Stats

def second : Int := 1000000000

/-- Every transmission has a time, and all but the last have another one within a second after them. -/
structure Timeable (data : List Timespec) : Prop where
  nonempty : data ≠ []
  room : data.length ≤ maxThreads * maxPerThreadTxSamples
  timed : data.length = 1 ∨ ∀ time ∈ data, time.tvSec ≠ 0
  near : Near Timespec.nanos second data

/-- `timespec_diff` finds less than a second between the two. -/
def Close (earlier later : Timespec) : Prop := ∃ diff, timespecDiff (some later) (some earlier) = some diff ∧ diff.tvSec = 0

theorem close_iff {earlier later : Timespec} (normal : earlier.Normal) (normal' : later.Normal) :
    Close earlier later ↔ earlier.tvSec ≠ 0 ∧ later.tvSec ≠ 0 ∧ Follows Timespec.nanos second earlier later := by
  rw [Close,Follows]
  by_cases unset : later.tvSec = 0 ∨ earlier.tvSec = 0
  · rw [timespecDiff_unset unset]
    refine iff_of_false ?_ ?_
    · rintro ⟨diff,found,-⟩
      cases found
    · rintro ⟨stamped,stamped',-⟩
      exact unset.elim stamped' stamped
  · obtain ⟨stamped',stamped⟩ := not_or.mp unset
    obtain ⟨diff,found,⟨low,high⟩,difference⟩ := timespecDiff_exact normal' normal stamped' stamped
    have apart := difference
    rw [Timespec.nanos] at apart
    rw [found,second]
    constructor
    · rintro ⟨diff',same,zero⟩
      cases same
      exact ⟨stamped,stamped',by omega,by omega⟩
    · rintro ⟨-,-,ordered,close⟩
      exact ⟨diff,rfl,by omega⟩

theorem interArrivals_iff (times : List Timespec) : (∃ gaps, interArrivals times = .next gaps) ↔ times.IsChain Close := by
  induction times with
  | nil => simp [interArrivals]
  | cons earlier rest ih =>
    cases rest with
    | nil => simp [interArrivals]
    | cons later rest =>
      rw [List.isChain_cons_cons,← ih,interArrivals,Close]
      constructor
      · rintro ⟨gaps,computed⟩
        split at computed
        next => cases computed
        next diff found =>
          obtain ⟨_,passed,computed⟩ := Outcome.bind_next computed
          obtain ⟨gaps',rest',-⟩ := Outcome.bind_next computed
          have zero : decide (diff.tvSec = 0) = true := (Outcome.assert_next _).mp passed
          exact ⟨⟨diff,found,of_decide_eq_true zero⟩,gaps',rest'⟩
      · rintro ⟨⟨diff,found,zero⟩,gaps,computed⟩
        rw [found]
        dsimp only
        rw [decide_eq_true zero,computed]
        exact ⟨_,rfl⟩

/-- `timespec_cmp` orders times that are not some decades apart. -/
theorem cmp_nanos {a b : Timespec} (normal : a.Normal) (normal' : b.Normal) (within : a.nanos - b.nanos ≤ 2^30 * second)
    (within' : b.nanos - a.nanos ≤ 2^30 * second) : timespecCmp a b ≤ 0 ↔ a.nanos ≤ b.nanos := by
  obtain ⟨low,high⟩ := normal
  obtain ⟨low',high'⟩ := normal'
  rw [Timespec.nanos,Timespec.nanos,second] at within within'
  rw [timespecCmp,Timespec.nanos,Timespec.nanos,toInt,toInt,Int.bmod,Int.bmod]
  split
  · omega
  · omega

variable {data : List Timespec}

theorem Timeable.perm {data' : List Timespec} (timeable : Timeable data) (permuted : data'.Perm data) : Timeable data' := by
  refine ⟨?_,?_,?_,timeable.near.perm permuted⟩
  · intro empty
    rw [empty] at permuted
    exact timeable.nonempty permuted.nil_eq.symm
  · rw [permuted.length_eq]
    exact timeable.room
  · rw [permuted.length_eq]
    exact timeable.timed.imp_right fun stamped time inside => stamped time (permuted.mem_iff.mp inside)

theorem Timeable.span (timeable : Timeable data) {a b : Timespec} (inA : a ∈ data) (inB : b ∈ data) :
    b.nanos - a.nanos ≤ 2^30 * second := by
  have room : data.length ≤ 32768 := timeable.room
  have spread := timeable.near.span (by decide) inA inB
  rw [second] at spread ⊢
  omega

theorem Timeable.orders (timeable : Timeable data) (normal : ∀ time ∈ data, time.Normal) : Orders timespecCmp data := by
  have compares {a b : Timespec} (inA : a ∈ data) (inB : b ∈ data) : timespecCmp a b ≤ 0 ↔ a.nanos ≤ b.nanos :=
    cmp_nanos (normal a inA) (normal b inB) (timeable.span inB inA) (timeable.span inA inB)
  constructor
  · intro a inA b inB
    rw [compares inA inB,compares inB inA]
    exact le_total _ _
  · intro a inA b inB c inC
    rw [compares inA inB,compares inB inC,compares inA inC]
    exact le_trans

theorem Timeable.chain (qsort : Qsort) (timeable : Timeable data) (normal : ∀ time ∈ data, time.Normal) :
    (qsort.sort timespecCmp data).IsChain Close := by
  have member {time : Timespec} (inside : time ∈ qsort.sort timespecCmp data) : time ∈ data := (qsort.mem _ _ _).mp inside
  rcases timeable.timed with one | stamped
  · have length : (qsort.sort timespecCmp data).length = 1 := (qsort.length _ _).trans one
    obtain ⟨time,single⟩ := List.length_eq_one_iff.mp length
    rw [single]
    exact .singleton _
  · have sorted : (qsort.sort timespecCmp data).Pairwise (fun a b => a.nanos ≤ b.nanos) := by
      refine (qsort.sorted timespecCmp data (timeable.orders normal)).imp_of_mem ?_
      intro a b inA inB compared
      exact (cmp_nanos (normal a (member inA)) (normal b (member inB)) (timeable.span (member inB) (member inA))
        (timeable.span (member inA) (member inB))).mp compared
    have chain := (timeable.near.perm (qsort.perm timespecCmp data)).chain (by decide) sorted
    refine chain.imp_of_mem_imp ?_
    intro a b inA inB follows
    exact (close_iff (normal a (member inA)) (normal b (member inB))).mpr ⟨stamped a (member inA),stamped b (member inB),follows⟩

/-- Every item of a chain of two or more stands beside another one. -/
theorem chain_timed {times : List Timespec} (chain : times.IsChain Close) (normal : ∀ time ∈ times, time.Normal)
    (many : times.length ≠ 1) : ∀ time ∈ times, time.tvSec ≠ 0 := by
  induction times with
  | nil => simp
  | cons earlier rest ih =>
    cases rest with
    | nil => exact absurd rfl many
    | cons later rest =>
      obtain ⟨close,chain'⟩ := List.isChain_cons_cons.mp chain
      have stamped := (close_iff (normal earlier (by simp)) (normal later (by simp))).mp close
      intro time inside
      rcases List.mem_cons.mp inside with rfl | inside'
      · exact stamped.1
      · by_cases one : (later :: rest).length = 1
        · have single : rest = [] := List.length_eq_zero_iff.mp (by simpa using one)
          rw [single,List.mem_singleton] at inside'
          rw [inside']
          exact stamped.2.1
        · exact ih chain' (fun other listed => normal other (List.mem_cons_of_mem _ listed)) one time inside'

theorem timeable_of_chain (qsort : Qsort) (nonempty : data ≠ []) (room : data.length ≤ maxThreads * maxPerThreadTxSamples)
    (normal : ∀ time ∈ data, time.Normal) (chain : (qsort.sort timespecCmp data).IsChain Close) : Timeable data := by
  have permuted := qsort.perm timespecCmp data
  have normal' : ∀ time ∈ qsort.sort timespecCmp data, time.Normal := fun time inside => normal time (permuted.mem_iff.mp inside)
  have follows : (qsort.sort timespecCmp data).IsChain (Follows Timespec.nanos second) := by
    refine chain.imp_of_mem_imp ?_
    intro a b inA inB close
    exact ((close_iff (normal' a inA) (normal' b inB)).mp close).2.2
  refine ⟨nonempty,room,?_,(near_of_chain follows).perm permuted.symm⟩
  by_cases one : data.length = 1
  · exact .inl one
  · right
    intro time inside
    exact chain_timed chain normal' (by rwa [permuted.length_eq]) time (permuted.mem_iff.mpr inside)

theorem checkIa_iff {F : Type} [CDouble F] (qsort : Qsort) (referenceIa : List UInt64) (allTx : List TxSamples)
    (normal : ∀ time ∈ allTx.flatMap retainedTx, time.Normal) :
    (∃ flag, checkIa F qsort referenceIa allTx = .next flag) ↔ Timeable (allTx.flatMap retainedTx) := by
  constructor
  · rintro ⟨flag,checked⟩
    obtain ⟨_,room,checked⟩ := Outcome.bind_next checked
    obtain ⟨gaps,computed,checked⟩ := Outcome.bind_next checked
    obtain ⟨_,asserted,-⟩ := Outcome.bind_next checked
    have room' := of_decide_eq_true ((Outcome.assert_next _).mp room)
    have nonempty := of_decide_eq_true ((Outcome.assert_next _).mp asserted)
    exact timeable_of_chain qsort nonempty room' normal ((interArrivals_iff _).mp ⟨gaps,computed⟩)
  · intro timeable
    obtain ⟨gaps,computed⟩ := (interArrivals_iff _).mpr (timeable.chain qsort normal)
    simp only [checkIa,decide_eq_true timeable.room,decide_eq_true timeable.nonempty,computed,Outcome.assert_true,Outcome.next_bind]
    exact ⟨_,rfl⟩

end Lancet.InterArrivals
