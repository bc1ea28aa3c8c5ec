import Lancet.Stats

/-! The array accesses of `check_ia` by the number of transmissions. They are listed beside the
result of `check_ia`, also those that its assertion on the number comes too late for. -/
namespace Lancet.IaBounds
open Foundation Agent Timestamping Stats

inductive Access where
  | data (index : Nat)
  | collected (index : Nat)
  -- the length that `ks` gets
  | ks (length : Int)
  deriving DecidableEq, Repr

/-- The size of both arrays. -/
def capacity : Nat := maxThreads * maxPerThreadTxSamples

def toCopy (txS : TxSamples) : Nat := min txS.count.toNat maxPerThreadTxSamples

def copyTx (copyIdx : Nat) : List TxSamples → List Access
  | [] => []
  | txS :: rest => (List.range (toCopy txS)).map (fun offset => .data (copyIdx + offset)) ++ copyTx (copyIdx + toCopy txS) rest

def interTx (index : Nat) : List Timespec → List Access × Outcome (List UInt64)
  | earlier :: later :: rest =>
    match timespecDiff (some later) (some earlier) with
    | none => ([],.fault)
    | some diff =>
      if diff.tvSec = 0 then
        let (accesses,gaps) := interTx (index + 1) (later :: rest)
        (.collected index :: accesses,do
          let gaps ← gaps
          return UInt64.ofInt diff.tvNsec :: gaps)
      else ([],.fault)
  | _ => ([],return [])

def judge (F : Type) [CDouble F] (qsort : Qsort) (referenceIa collectedIa : List UInt64) : UInt32 :=
  let ksResult : F := ks qsort referenceIa collectedIa
  let collectedIaSize : F := CDouble.ofInt collectedIa.length
  let reference : F := CDouble.ofInt referenceIaSize
  let val := ca * CDouble.sqrt ((reference + collectedIaSize) / (reference * collectedIaSize))
  if CDouble.lt ksResult val then 1 else 0

def checkIaRun (F : Type) [CDouble F] (qsort : Qsort) (referenceIa : List UInt64) (allTx : List TxSamples) :
    List Access × Outcome UInt32 :=
  let data := allTx.flatMap retainedTx
  let copies := copyTx 0 allTx
  if data.length ≤ capacity then
    let (writes,gaps) := interTx 0 (qsort.sort timespecCmp data)
    match gaps with
    | .next collectedIa =>
      (copies ++ writes ++ [.ks ((data.length : Int) - 1)],do
        Outcome.assert (data ≠ [])
        return judge F qsort referenceIa collectedIa)
    | .halt => (copies ++ writes,.halt)
    | .fault => (copies ++ writes,.fault)
  else (copies,.fault)

theorem interTx_gaps (index : Nat) (times : List Timespec) : (interTx index times).2 = interArrivals times := by
  induction times generalizing index with
  | nil => rfl
  | cons earlier rest ih =>
    cases rest with
    | nil => rfl
    | cons later rest =>
      rw [interTx,interArrivals]
      cases found : timespecDiff (some later) (some earlier) with
      | none => rfl
      | some diff =>
        dsimp only
        split
        next zero => rw [decide_eq_true zero,Outcome.assert_true,Outcome.next_bind,← ih (index + 1)]
        next filled =>
          rw [decide_eq_false filled]
          rfl

/-- The result beside the accesses is the one of `check_ia`. -/
theorem checkIaRun_result {F : Type} [CDouble F] (qsort : Qsort) (referenceIa : List UInt64) (allTx : List TxSamples) :
    (checkIaRun F qsort referenceIa allTx).2 = checkIa F qsort referenceIa allTx := by
  have gaps := interTx_gaps 0 (qsort.sort timespecCmp (allTx.flatMap retainedTx))
  simp only [checkIaRun,checkIa]
  split
  next room =>
    rw [decide_eq_true (show _ ≤ maxThreads * maxPerThreadTxSamples from room),Outcome.assert_true,Outcome.next_bind,← gaps]
    cases (interTx 0 (qsort.sort timespecCmp (allTx.flatMap retainedTx))).2 with
    | next collectedIa => rfl
    | halt => rfl
    | fault => rfl
  next full =>
    rw [decide_eq_false (show ¬_ ≤ maxThreads * maxPerThreadTxSamples from full)]
    rfl

def total (allTx : List TxSamples) : Nat := (allTx.map toCopy).sum

theorem data_length (allTx : List TxSamples) : (allTx.flatMap retainedTx).length = total allTx := by
  rw [List.length_flatMap,total]
  congr 1
  apply List.map_congr_left
  intro txS _
  simp [retainedTx,toCopy]

theorem copyTx_access (copyIdx : Nat) (allTx : List TxSamples) (access : Access) :
    access ∈ copyTx copyIdx allTx ↔ ∃ index, access = .data index ∧ copyIdx ≤ index ∧ index < copyIdx + total allTx := by
  induction allTx generalizing copyIdx with
  | nil =>
    simp [copyTx,total]
  | cons txS rest ih =>
    have sum : total (txS :: rest) = toCopy txS + total rest := by rw [total,List.map_cons,List.sum_cons,total]
    rw [copyTx,List.mem_append,ih,List.mem_map,sum]
    constructor
    · rintro (⟨offset,inside,rfl⟩ | ⟨index,rfl,low,high⟩)
      · rw [List.mem_range] at inside
        exact ⟨_,rfl,by omega,by omega⟩
      · exact ⟨index,rfl,by omega,by omega⟩
    · rintro ⟨index,rfl,low,high⟩
      by_cases here : index < copyIdx + toCopy txS
      · exact .inl ⟨index - copyIdx,List.mem_range.mpr (by omega),by rw [Nat.add_sub_cancel' low]⟩
      · exact .inr ⟨index,rfl,by omega,by omega⟩

theorem interTx_access (start : Nat) (times : List Timespec) {access : Access} (made : access ∈ (interTx start times).1) :
    ∃ index, access = .collected index ∧ index + 1 < start + times.length := by
  induction times generalizing start with
  | nil => cases made
  | cons earlier rest ih =>
    cases rest with
    | nil => cases made
    | cons later rest =>
      rw [interTx] at made
      split at made
      next => cases made
      next diff found =>
        split at made
        next zero =>
          rcases List.mem_cons.mp made with rfl | further
          · exact ⟨start,rfl,by simp⟩
          · obtain ⟨index,rfl,inside⟩ := ih (start + 1) further
            rw [List.length_cons]
            exact ⟨index,rfl,by omega⟩
        next => cases made

theorem interTx_first {earlier later : Timespec} {rest : List Timespec} {gaps : List UInt64} (start : Nat)
    (computed : (interTx start (earlier :: later :: rest)).2 = .next gaps) :
    .collected start ∈ (interTx start (earlier :: later :: rest)).1 := by
  rw [interTx] at computed ⊢
  split at computed
  next => cases computed
  next diff found =>
    split at computed
    next zero =>
      rw [if_pos zero]
      exact List.mem_cons_self
    next => cases computed

/-- Every access is inside its array, and nothing is called compliant without a gap. -/
structure Safe (run : List Access × Outcome UInt32) : Prop where
  data : ∀ index, .data index ∈ run.1 → index < capacity
  collected : ∀ index, .collected index ∈ run.1 → index < capacity
  length : ∀ length, .ks length ∈ run.1 → 0 ≤ length
  compliance : run.2 = .next 1 → ∃ index, .collected index ∈ run.1

section Runs
variable {F : Type} [CDouble F] (qsort : Qsort) (referenceIa : List UInt64) {allTx : List TxSamples}

theorem copies_made {access : Access} (made : access ∈ copyTx 0 allTx) :
    access ∈ (checkIaRun F qsort referenceIa allTx).1 := by
  simp only [checkIaRun]
  split
  · cases (interTx 0 (qsort.sort timespecCmp (allTx.flatMap retainedTx))).2 with
    | next collectedIa => simp [made]
    | halt => simp [made]
    | fault => simp [made]
  · exact made

theorem access_cases {access : Access} (made : access ∈ (checkIaRun F qsort referenceIa allTx).1) :
    access ∈ copyTx 0 allTx ∨ access ∈ (interTx 0 (qsort.sort timespecCmp (allTx.flatMap retainedTx))).1 ∨
      access = .ks ((total allTx : Int) - 1) := by
  rw [← data_length]
  simp only [checkIaRun] at made
  split at made
  · cases gaps : (interTx 0 (qsort.sort timespecCmp (allTx.flatMap retainedTx))).2 with
    | next collectedIa =>
      simp only [gaps,List.mem_append,List.mem_singleton] at made
      rwa [or_assoc] at made
    | halt =>
      simp only [gaps,List.mem_append] at made
      exact made.imp_right .inl
    | fault =>
      simp only [gaps,List.mem_append] at made
      exact made.imp_right .inl
  · exact .inl made

theorem run_collected (room : total allTx ≤ capacity) {gaps : List UInt64}
    (computed : (interTx 0 (qsort.sort timespecCmp (allTx.flatMap retainedTx))).2 = .next gaps) :
    checkIaRun F qsort referenceIa allTx = (copyTx 0 allTx ++ (interTx 0 (qsort.sort timespecCmp (allTx.flatMap retainedTx))).1 ++
      [.ks ((total allTx : Int) - 1)],do
        Outcome.assert (allTx.flatMap retainedTx ≠ [])
        return judge F qsort referenceIa gaps) := by
  rw [← data_length] at room ⊢
  simp only [checkIaRun]
  rw [if_pos room]
  simp only [computed]

theorem safe_of_total (enough : 2 ≤ total allTx) (room : total allTx ≤ capacity) :
    Safe (checkIaRun F qsort referenceIa allTx) := by
  have sorted := qsort.length timespecCmp (allTx.flatMap retainedTx)
  rw [data_length] at sorted
  refine ⟨?_,?_,?_,?_⟩
  · intro index made
    rcases access_cases qsort referenceIa made with copied | written | called
    · obtain ⟨_,same,-,high⟩ := (copyTx_access 0 allTx _).mp copied
      cases same
      omega
    · obtain ⟨_,same,-⟩ := interTx_access 0 _ written
      cases same
    · cases called
  · intro index made
    rcases access_cases qsort referenceIa made with copied | written | called
    · obtain ⟨_,same,-⟩ := (copyTx_access 0 allTx _).mp copied
      cases same
    · obtain ⟨_,same,high⟩ := interTx_access 0 _ written
      cases same
      omega
    · cases called
  · intro length made
    rcases access_cases qsort referenceIa made with copied | written | called
    · obtain ⟨_,same,-⟩ := (copyTx_access 0 allTx _).mp copied
      cases same
    · obtain ⟨_,same,-⟩ := interTx_access 0 _ written
      cases same
    · cases called
      omega
  · intro compliant
    rw [checkIaRun_result] at compliant
    obtain ⟨_,-,computed⟩ := Outcome.bind_next compliant
    obtain ⟨gaps,computed,-⟩ := Outcome.bind_next computed
    rw [← interTx_gaps 0] at computed
    rw [run_collected qsort referenceIa room computed]
    generalize qsort.sort timespecCmp (allTx.flatMap retainedTx) = times at computed sorted ⊢
    match times, sorted with
    | [], sorted | [_], sorted => simp at sorted; omega
    | earlier :: later :: rest, _ => exact ⟨0,by simp [interTx_first 0 computed]⟩

/-- Without a gap there is no distance, and the threshold is infinite. -/
theorem judge_nothing (qsort : Qsort) : judge Float qsort referenceIa [] = 1 := by
  have empty : qsort.sort longCompare [] = [] := (qsort.perm longCompare []).eq_nil
  have start (a : List UInt64) : (ksSorted a [] : Float) = 0.0 := by
    cases a <;> rfl
  rw [judge,ks,empty,start,List.length_nil]
  decide +kernel

theorem total_of_safe (qsort : Qsort) (safe : Safe (checkIaRun Float qsort referenceIa allTx)) :
    2 ≤ total allTx ∧ total allTx ≤ capacity := by
  have room : total allTx ≤ capacity := by
    by_contra full
    have last : .data capacity ∈ copyTx 0 allTx := (copyTx_access 0 allTx _).mpr ⟨capacity,rfl,by omega,by omega⟩
    exact absurd (safe.data capacity (copies_made qsort referenceIa last)) (lt_irrefl _)
  refine ⟨?_,room⟩
  by_contra few
  have sorted := qsort.length timespecCmp (allTx.flatMap retainedTx)
  rw [data_length] at sorted
  have nothing : interTx 0 (qsort.sort timespecCmp (allTx.flatMap retainedTx)) = ([],.next []) := by
    generalize qsort.sort timespecCmp (allTx.flatMap retainedTx) = times at sorted
    match times, sorted with
    | [], _ | [_], _ => rfl
    | _ :: _ :: _, sorted => simp at sorted; omega
  have run := run_collected (F := Float) qsort referenceIa room (congrArg Prod.snd nothing)
  rw [nothing] at run
  rw [run] at safe
  rcases Nat.eq_zero_or_pos (total allTx) with unsent | one
  · have called := safe.length ((total allTx : Int) - 1) (by simp)
    omega
  · have single : total allTx = 1 := by omega
    have present : allTx.flatMap retainedTx ≠ [] := by
      apply List.ne_nil_of_length_pos
      rwa [data_length]
    have compliant : (do
        Outcome.assert (allTx.flatMap retainedTx ≠ [])
        return judge Float qsort referenceIa []) = Outcome.next 1 := by
      rw [decide_eq_true present,judge_nothing]
      rfl
    obtain ⟨index,made⟩ := safe.compliance compliant
    rw [List.append_nil,List.mem_append,List.mem_singleton] at made
    rcases made with copied | called
    · obtain ⟨_,same,-⟩ := (copyTx_access 0 allTx _).mp copied
      cases same
    · cases called

end Runs

/-- `check_ia` is safe just when there are two transmissions at least and no more than its arrays hold. -/
theorem check_ia_safe_iff (qsort : Qsort) (referenceIa : List UInt64) (allTx : List TxSamples) :
    (checkIaRun Float qsort referenceIa allTx).2 = checkIa Float qsort referenceIa allTx ∧
      (Safe (checkIaRun Float qsort referenceIa allTx) ↔ 2 ≤ total allTx ∧ total allTx ≤ capacity) := by
  refine ⟨checkIaRun_result qsort referenceIa allTx,?_⟩
  constructor
  · exact total_of_safe referenceIa qsort
  · rintro ⟨enough,room⟩
    exact safe_of_total qsort referenceIa enough room

def exampleTx (count : UInt32) : TxSamples := ⟨count,fun _ => ⟨1,0⟩⟩

/-- One transmission is called compliant; seventeen full threads write past the array; none gives a length of -1. -/
theorem single_transmission_fails : (checkIaRun Float Qsort.insertion [] [exampleTx 1]).2 = .next 1 ∧
    (checkIaRun Float Qsort.insertion [] [exampleTx 1]).1 = [.data 0,.ks 0] ∧
    .ks (-1) ∈ (checkIaRun Float Qsort.insertion [] [exampleTx 0]).1 ∧
    .data capacity ∈ (checkIaRun Float Qsort.insertion [] (List.replicate 17 (exampleTx 5000))).1 := by
  refine ⟨by decide +kernel,by decide +kernel,by decide +kernel,?_⟩
  apply copies_made
  exact (copyTx_access 0 _ _).mpr ⟨capacity,rfl,by decide,by decide⟩

end Lancet.IaBounds
