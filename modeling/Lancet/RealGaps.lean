import Lancet.InterArrivals
import Lancet.Foundation.Ring

/-! Whether the inter-arrival times that `check_ia` collects passed between transmissions
with no other one between them. Every thread keeps its own latest ones, and the threads'
windows need not start together. -/
namespace Lancet.RealGaps
open Foundation Agent Timestamping Stats InterArrivals

/-- The recorded transmissions since the last clear: the thread and its time. -/
abbrev History := List (Nat × Timespec)

def recordAll (allTx : List TxSamples) (history : History) : List TxSamples :=
  history.foldl (fun allTx tx => allTx.modify tx.1 (fun txS => addTxTimestamp true txS tx.2)) allTx

/-- The array `data` after its `qsort`. -/
def sortedTx (qsort : Qsort) (allTx : List TxSamples) : List Timespec := qsort.sort timespecCmp (allTx.flatMap retainedTx)

def collectedIa (qsort : Qsort) (allTx : List TxSamples) : Outcome (List UInt64) := interArrivals (sortedTx qsort allTx)

def sentBy (thread : Nat) (history : History) : List Timespec := (history.filter (·.1 = thread)).map (·.2)

/-- The transmissions of one thread that are left: its 32-bit count starts over after 2^32 of them. -/
def latest (times : List Timespec) : List Timespec := times.drop (times.length - min (times.length % 2^32) maxPerThreadTxSamples)

def keptTimes (threads : Nat) (history : History) : List Timespec :=
  (List.range threads).flatMap (fun thread => latest (sentBy thread history))

structure Adjacent (history : History) (earlier later : Timespec) : Prop where
  earlierTaken : earlier ∈ history.map (·.2)
  laterTaken : later ∈ history.map (·.2)
  ordered : earlier.nanos < later.nanos
  nothing : ∀ time ∈ history.map (·.2), ¬(earlier.nanos < time.nanos ∧ time.nanos < later.nanos)

/-- A collected inter-arrival time and the transmissions it was taken from. -/
def Real (history : History) (pair : Timespec × Timespec) (gap : UInt64) : Prop :=
  Adjacent history pair.1 pair.2 ∧ (gap.toNat : Int) = pair.2.nanos - pair.1.nanos

/-- No transmission was overwritten that lies between two that are left. -/
def Unbroken (threads : Nat) (history : History) : Prop :=
  ∀ time ∈ history.map (·.2), ∀ earlier ∈ keptTimes threads history, ∀ later ∈ keptTimes threads history,
    earlier.nanos < time.nanos → time.nanos < later.nanos → time ∈ keptTimes threads history

/-- The times of a history are those of a clock that goes forward. -/
structure Increasing (threads : Nat) (history : History) : Prop where
  numbered : ∀ tx ∈ history, tx.1 < threads
  normal : ∀ tx ∈ history, tx.2.Normal
  ascending : history.Pairwise (fun a b => a.2.nanos < b.2.nanos)

/-- What the buffer of a thread holds of the thread's transmissions. -/
structure Recorded (txS : TxSamples) (times : List Timespec) : Prop where
  count : txS.count = UInt32.ofNat times.length
  keeps : Keeps (fun time held => held = time) maxPerThreadTxSamples txS.samples times

theorem recorded_none {txS : TxSamples} (zero : txS.count = 0) : Recorded txS [] := ⟨zero,Keeps.empty⟩

theorem recorded_add {txS : TxSamples} {times : List Timespec} (recorded : Recorded txS times) (txTs : Timespec) :
    Recorded (addTxTimestamp true txS txTs) (times ++ [txTs]) := by
  constructor
  · rw [addTxTimestamp,if_pos rfl,recorded.count,List.length_append,UInt32.ofNat_add]
    rfl
  · refine recorded.keeps.push txTs (by decide) rfl ?_
    intro slot
    -- the size of the buffer divides the range of the count
    have sameSlot : txS.count.toNat % maxPerThreadTxSamples = times.length % maxPerThreadTxSamples := by
      rw [recorded.count,UInt32.toNat_ofNat',maxPerThreadTxSamples]
      omega
    rw [addTxTimestamp,if_pos rfl,sameSlot]

theorem held_same {items items' : List Timespec} (same : List.Forall₂ (fun time held => held = time) items items') : items' = items := by
  rw [← List.forall₂_eq_eq_eq]
  exact same.flip

theorem recorded_kept {txS : TxSamples} {times : List Timespec} (recorded : Recorded txS times) :
    (retainedTx txS).Perm (latest times) := by
  have counted : txS.count.toNat = times.length % 2^32 := by
    rw [recorded.count,UInt32.toNat_ofNat']
  rw [retainedTx,latest,counted]
  have fewer : times.length % 2^32 ≤ times.length := Nat.mod_le _ _
  rcases Nat.le_total (times.length % 2^32) maxPerThreadTxSamples with few | many
  · rw [Nat.min_eq_left few]
    have held := held_same (recorded.keeps.latest fewer few)
    have inPlace : ∀ index ∈ List.range (times.length % 2^32),
        txS.samples ((times.length - times.length % 2^32 + index) % maxPerThreadTxSamples) = txS.samples index := by
      intro index inside
      rw [List.mem_range] at inside
      rw [maxPerThreadTxSamples] at few ⊢
      rw [show (times.length - times.length % 2^32 + index) % 2048 = index by omega]
    rw [List.map_congr_left inPlace] at held
    rw [held]
  · rw [Nat.min_eq_right many]
    have held := held_same (recorded.keeps.latest (many.trans fewer) le_rfl)
    have rotated := (range_mod_perm (times.length - maxPerThreadTxSamples) maxPerThreadTxSamples).map txS.samples
    rw [List.map_map] at rotated
    rw [← held]
    exact rotated.symm

theorem recordAll_concat (allTx : List TxSamples) (history : History) (tx : Nat × Timespec) :
    recordAll allTx (history ++ [tx]) = (recordAll allTx history).modify tx.1 (fun txS => addTxTimestamp true txS tx.2) := by
  rw [recordAll,List.foldl_append]
  rfl

theorem recordAll_length (allTx : List TxSamples) (history : History) : (recordAll allTx history).length = allTx.length := by
  induction history using List.reverseRecOn with
  | nil => rfl
  | append_singleton history tx ih => rw [recordAll_concat,List.length_modify,ih]

theorem sentBy_concat (thread : Nat) (history : History) (tx : Nat × Timespec) :
    sentBy thread (history ++ [tx]) = sentBy thread history ++ if tx.1 = thread then [tx.2] else [] := by
  rw [sentBy,List.filter_append,List.map_append]
  by_cases same : tx.1 = thread
  · simp [sentBy,same]
  · simp [sentBy,same]

theorem recorded_all {allTx : List TxSamples} (cleared : ∀ txS ∈ allTx, txS.count = 0) (history : History) (thread : Nat) (txS : TxSamples)
    (present : (recordAll allTx history)[thread]? = some txS) : Recorded txS (sentBy thread history) := by
  induction history using List.reverseRecOn generalizing txS with
  | nil => exact recorded_none (cleared txS (List.mem_of_getElem? present))
  | append_singleton history tx ih =>
    rw [recordAll_concat,List.getElem?_modify,Option.map_eq_map,Option.map_eq_some_iff] at present
    obtain ⟨before,present,rfl⟩ := present
    rw [sentBy_concat]
    by_cases same : tx.1 = thread
    · rw [if_pos same,if_pos same]
      exact recorded_add (ih before present) tx.2
    · rw [if_neg same,if_neg same,List.append_nil]
      exact ih before present

/-- What every item gives, and what its index gives. -/
theorem flatMap_perm_range {α β : Type} (items : List α) (f : α → List β) (g : Nat → List β)
    (each : ∀ index item, items[index]? = some item → (f item).Perm (g index)) :
    (items.flatMap f).Perm ((List.range items.length).flatMap g) := by
  induction items using List.reverseRecOn with
  | nil => simp
  | append_singleton items item ih =>
    rw [List.length_append,List.length_singleton,List.range_succ,List.flatMap_append,List.flatMap_append,
      List.flatMap_singleton,List.flatMap_singleton]
    refine (ih ?_).append (each _ _ List.getElem?_concat_length)
    intro index item' present
    obtain ⟨below,-⟩ := List.getElem?_eq_some_iff.mp present
    exact each index item' (by rw [List.getElem?_append_left below,present])

theorem recorded_perm {allTx : List TxSamples} (cleared : ∀ txS ∈ allTx, txS.count = 0) (history : History) :
    ((recordAll allTx history).flatMap retainedTx).Perm (keptTimes allTx.length history) := by
  have perm := flatMap_perm_range (recordAll allTx history) retainedTx (fun thread => latest (sentBy thread history))
    (fun thread txS present => recorded_kept (recorded_all cleared history thread txS present))
  rwa [recordAll_length] at perm

variable {threads : Nat} {history : History}

theorem mem_sentBy {thread : Nat} {time : Timespec} : time ∈ sentBy thread history ↔ (thread,time) ∈ history := by
  simp [sentBy]

theorem kept_sent {time : Timespec} (kept : time ∈ keptTimes threads history) : ∃ thread, (thread,time) ∈ history := by
  obtain ⟨thread,-,inside⟩ := List.mem_flatMap.mp kept
  exact ⟨thread,mem_sentBy.mp (List.mem_of_mem_drop inside)⟩

theorem kept_recorded {time : Timespec} (kept : time ∈ keptTimes threads history) : time ∈ history.map (·.2) := by
  obtain ⟨thread,inside⟩ := kept_sent kept
  exact List.mem_map.mpr ⟨_,inside,rfl⟩

theorem Increasing.same (increasing : Increasing threads history) {a b : Nat × Timespec} (inA : a ∈ history) (inB : b ∈ history)
    (same : a.2.nanos = b.2.nanos) : a = b := by
  by_contra differ
  have apart : history.Pairwise (fun a b => a.2.nanos ≠ b.2.nanos) := increasing.ascending.imp fun less => ne_of_lt less
  have symmetric : Std.Symm (fun a b : Nat × Timespec => a.2.nanos ≠ b.2.nanos) := ⟨fun _ _ unequal => unequal.symm⟩
  exact apart.forall inA inB differ same

/-- Times tell the transmissions apart. -/
theorem kept_apart (increasing : Increasing threads history) :
    (keptTimes threads history).Pairwise (fun a b => a.nanos ≠ b.nanos) := by
  rw [keptTimes,List.pairwise_flatMap]
  constructor
  · intro thread _
    have sent : (sentBy thread history).Pairwise (fun a b => a.nanos ≠ b.nanos) := by
      rw [sentBy,List.pairwise_map]
      exact (increasing.ascending.imp fun less => ne_of_lt less).sublist List.filter_sublist
    exact sent.sublist (List.drop_sublist _ _)
  · refine List.nodup_range.imp ?_
    intro first second differ a inA b inB same
    have sentA := mem_sentBy.mp (List.mem_of_mem_drop inA)
    have sentB := mem_sentBy.mp (List.mem_of_mem_drop inB)
    exact differ (congrArg Prod.fst (increasing.same sentA sentB same))

theorem toNat_ofInt {value : Int} (low : 0 ≤ value) (high : value < 2^64) : ((UInt64.ofInt value).toNat : Int) = value := by
  rw [UInt64.ofInt,UInt64.toNat_ofNat']
  omega

theorem interArrivals_cons {earlier later : Timespec} {rest : List Timespec} {gaps : List UInt64} (normal : earlier.Normal)
    (normal' : later.Normal) (collected : interArrivals (earlier :: later :: rest) = .next gaps) :
    ∃ gap gaps', gaps = gap :: gaps' ∧ (gap.toNat : Int) = later.nanos - earlier.nanos ∧ interArrivals (later :: rest) = .next gaps' := by
  rw [interArrivals] at collected
  split at collected
  next => cases collected
  next diff found =>
    obtain ⟨_,passed,collected⟩ := Outcome.bind_next collected
    obtain ⟨gaps',rest',collected⟩ := Outcome.bind_next collected
    cases collected
    have zero := of_decide_eq_true ((Outcome.assert_next _).mp passed)
    have close : Close earlier later := ⟨diff,found,zero⟩
    obtain ⟨stamped,stamped',-⟩ := (close_iff normal normal').mp close
    obtain ⟨_,found',⟨low,high⟩,nanos⟩ := timespecDiff_exact normal' normal stamped' stamped
    cases found.symm.trans found'
    refine ⟨_,gaps',rfl,?_,rest'⟩
    rw [toNat_ofInt low (by omega),← nanos,Timespec.nanos,zero]
    omega

theorem interArrivals_exact {times : List Timespec} {gaps : List UInt64} (normal : ∀ time ∈ times, time.Normal)
    (collected : interArrivals times = .next gaps) :
    List.Forall₂ (fun pair gap => (gap.toNat : Int) = pair.2.nanos - pair.1.nanos) (neighbours times) gaps := by
  induction times generalizing gaps with
  | nil =>
    cases collected
    exact .nil
  | cons earlier rest ih =>
    cases rest with
    | nil =>
      cases collected
      exact .nil
    | cons later rest =>
      obtain ⟨gap,gaps',rfl,measured,rest'⟩ := interArrivals_cons (normal earlier (by simp)) (normal later (by simp)) collected
      rw [neighbours_cons]
      exact .cons measured (ih (fun time inside => normal time (List.mem_cons_of_mem _ inside)) rest')

theorem sortedTx_perm (qsort : Qsort) {allTx : List TxSamples} (cleared : ∀ txS ∈ allTx, txS.count = 0) (history : History) :
    (sortedTx qsort (recordAll allTx history)).Perm (keptTimes allTx.length history) :=
  (qsort.perm _ _).trans (recorded_perm cleared history)

theorem kept_normal (increasing : Increasing threads history) {time : Timespec} (kept : time ∈ keptTimes threads history) : time.Normal := by
  obtain ⟨thread,sent⟩ := kept_sent kept
  exact increasing.normal _ sent

/-- The assertions of the loop let the data pass only in ascending order. -/
theorem sortedTx_ascending {qsort : Qsort} {allTx : List TxSamples} {gaps : List UInt64} (cleared : ∀ txS ∈ allTx, txS.count = 0)
    (increasing : Increasing allTx.length history) (collected : collectedIa qsort (recordAll allTx history) = .next gaps) :
    (sortedTx qsort (recordAll allTx history)).Pairwise (fun a b => a.nanos < b.nanos) := by
  have perm := sortedTx_perm qsort cleared history
  have normal {time : Timespec} (inside : time ∈ sortedTx qsort (recordAll allTx history)) : time.Normal :=
    kept_normal increasing (perm.mem_iff.mp inside)
  have chain : (sortedTx qsort (recordAll allTx history)).IsChain (Follows Timespec.nanos second) := by
    refine ((interArrivals_iff _).mp ⟨gaps,collected⟩).imp_of_mem_imp ?_
    intro earlier later inside inside' close
    exact ((close_iff (normal inside) (normal inside')).mp close).2.2
  have apart := (perm.pairwise_iff Ne.symm).mpr (kept_apart increasing)
  exact (chain_sorted chain).imp₂ (fun _ _ below unequal => lt_of_le_of_ne below unequal) apart

theorem adjacent_iff {times : List Timespec} (increasing : Increasing threads history) (perm : times.Perm (keptTimes threads history))
    (ascending : times.Pairwise (fun a b => a.nanos < b.nanos)) :
    (∀ pair ∈ neighbours times, Adjacent history pair.1 pair.2) ↔ Unbroken threads history := by
  constructor
  · intro adjacent time recorded earlier keptEarlier later keptLater above below
    by_contra overwritten
    have absent : ∀ kept ∈ times, kept.nanos ≠ time.nanos := by
      intro kept inside same
      obtain ⟨tx,sent,rfl⟩ := List.mem_map.mp recorded
      obtain ⟨thread,sent'⟩ := kept_sent (perm.mem_iff.mp inside)
      cases increasing.same sent' sent same
      exact overwritten (perm.mem_iff.mp inside)
    obtain ⟨pair,inside,between⟩ := exists_neighbours ascending (perm.mem_iff.mpr keptEarlier) (perm.mem_iff.mpr keptLater) above below absent
    exact (adjacent pair inside).nothing time recorded between
  · intro unbroken pair inside
    obtain ⟨first,last⟩ := neighbours_members inside
    have keptFirst := perm.mem_iff.mp first
    have keptLast := perm.mem_iff.mp last
    refine ⟨kept_recorded keptFirst,kept_recorded keptLast,neighbours_ascend ascending inside,?_⟩
    intro time recorded between
    have kept := unbroken time recorded _ keptFirst _ keptLast between.1 between.2
    exact nothing_between ascending inside (perm.mem_iff.mpr kept) between

theorem collectedIa_of_timeable (qsort : Qsort) {allTx : List TxSamples} (cleared : ∀ txS ∈ allTx, txS.count = 0)
    (increasing : Increasing allTx.length history) (timeable : Timeable (keptTimes allTx.length history)) :
    ∃ gaps, collectedIa qsort (recordAll allTx history) = .next gaps := by
  have perm := recorded_perm cleared history
  have normal : ∀ time ∈ (recordAll allTx history).flatMap retainedTx, time.Normal := fun time inside =>
    kept_normal increasing (perm.mem_iff.mp inside)
  exact (interArrivals_iff _).mpr ((timeable.perm perm).chain qsort normal)

/-- The collected times are real ones if and only if nothing was overwritten between transmissions that are left. -/
theorem collected_gaps_real_iff (qsort : Qsort) (allTx : List TxSamples) (history : History) (gaps : List UInt64)
    (cleared : ∀ txS ∈ allTx, txS.count = 0) (increasing : Increasing allTx.length history)
    (collected : collectedIa qsort (recordAll allTx history) = .next gaps) :
    List.Forall₂ (Real history) (neighbours (sortedTx qsort (recordAll allTx history))) gaps ↔ Unbroken allTx.length history := by
  have perm := sortedTx_perm qsort cleared history
  have ascending := sortedTx_ascending cleared increasing collected
  have measured := interArrivals_exact (fun time inside => kept_normal increasing (perm.mem_iff.mp inside)) collected
  rw [← adjacent_iff increasing perm ascending]
  exact (List.forall₂_and_left _ _).trans (and_iff_left measured)

def emptyTx : TxSamples := ⟨0,fun _ => Timespec.zero⟩

def interleaved : History := [(0,⟨1,0⟩),(1,⟨1,5⟩),(0,⟨1,9⟩)]

theorem interleaved_gaps_real :
    List.Forall₂ (Real interleaved) (neighbours (sortedTx .insertion (recordAll [emptyTx,emptyTx] interleaved))) [5,4] := by
  refine (collected_gaps_real_iff .insertion [emptyTx,emptyTx] interleaved [5,4] (by simp [emptyTx]) ?_ (by decide +kernel)).mpr ?_
  · exact ⟨by decide,by decide,by decide⟩
  · unfold Unbroken
    decide +kernel

/-- One transmission of the second thread, and then some of the first one. -/
def overtaking (sent : Nat) : History := (1,⟨1,0⟩) :: (List.range sent).map (fun k => (0,⟨1,(k + 1 : Nat)⟩))

theorem mem_overtaking {sent : Nat} {time : Timespec} : time ∈ (overtaking sent).map (·.2) ↔ ∃ k : Nat, k ≤ sent ∧ time = ⟨1,k⟩ := by
  rw [overtaking,List.map_cons,List.map_map,List.mem_cons,List.mem_map]
  constructor
  · rintro (rfl | ⟨k,inside,rfl⟩)
    · exact ⟨0,Nat.zero_le _,rfl⟩
    · rw [List.mem_range] at inside
      exact ⟨k + 1,by omega,rfl⟩
  · rintro ⟨k,most,rfl⟩
    cases k with
    | zero => exact .inl rfl
    | succ k => exact .inr ⟨k,List.mem_range.mpr (by omega),rfl⟩

theorem overtaking_increasing {sent : Nat} (few : sent < 1000000000) : Increasing 2 (overtaking sent) := by
  constructor
  · simp [overtaking]
  · intro tx inside
    obtain ⟨k,most,same⟩ := mem_overtaking.mp (List.mem_map_of_mem inside)
    rw [same,Timespec.Normal]
    dsimp only
    omega
  · rw [overtaking,List.pairwise_cons,List.pairwise_map]
    constructor
    · intro tx inside
      obtain ⟨k,-,rfl⟩ := List.mem_map.mp inside
      simp only [Timespec.nanos]
      omega
    · refine List.pairwise_lt_range.imp ?_
      intro first second less
      simp only [Timespec.nanos]
      omega

theorem overtaking_adjacent {sent : Nat} {earlier later : Timespec} (adjacent : Adjacent (overtaking sent) earlier later) :
    later.nanos - earlier.nanos = 1 := by
  obtain ⟨inside,inside',ordered,nothing⟩ := adjacent
  obtain ⟨first,-,rfl⟩ := mem_overtaking.mp inside
  obtain ⟨last,most,rfl⟩ := mem_overtaking.mp inside'
  simp only [Timespec.nanos] at ordered ⊢
  by_contra apart
  have follower : ⟨1,(first + 1 : Nat)⟩ ∈ (overtaking sent).map (·.2) := mem_overtaking.mpr ⟨first + 1,by omega,rfl⟩
  have between := nothing _ follower
  simp only [Timespec.nanos] at between
  omega

theorem overtaking_near (sent : Nat) (few : sent < 1000000000) : Near Timespec.nanos second (keptTimes 2 (overtaking sent)) := by
  intro a inA b inB less
  obtain ⟨first,-,rfl⟩ := mem_overtaking.mp (kept_recorded inA)
  obtain ⟨last,most,rfl⟩ := mem_overtaking.mp (kept_recorded inB)
  refine ⟨_,inB,less,?_⟩
  simp only [Timespec.nanos,second]
  omega

/-- The times of all that are left: the first thread lost its first one. -/
theorem overtaking_kept : keptTimes 2 (overtaking 2049) = (List.range 2048).map (fun k => ⟨1,(k + 2 : Nat)⟩) ++ [⟨1,0⟩] := by
  decide +kernel

theorem overtaking_timeable : Timeable (keptTimes 2 (overtaking 2049)) := by
  have length : (keptTimes 2 (overtaking 2049)).length = 2049 := by
    rw [overtaking_kept,List.length_append,List.length_map,List.length_range]
    rfl
  refine ⟨?_,?_,.inr ?_,overtaking_near 2049 (by decide)⟩
  · intro empty
    rw [empty] at length
    cases length
  · rw [length]
    decide
  · intro time inside
    obtain ⟨k,-,rfl⟩ := mem_overtaking.mp (kept_recorded inside)
    simp

theorem forall₂_mem {α β : Type} {related : α → β → Prop} {items : List α} {items' : List β}
    (relate : List.Forall₂ related items items') {a : α} (inside : a ∈ items) : ∃ b ∈ items', related a b := by
  induction relate with
  | nil => cases inside
  | cons first _ ih =>
    rcases List.mem_cons.mp inside with rfl | later
    · exact ⟨_,by simp,first⟩
    · obtain ⟨b,inB,relates⟩ := ih later
      exact ⟨b,List.mem_cons_of_mem _ inB,relates⟩

/-- The first thread's first transmission is overwritten, and the second thread's is still there. -/
theorem overtaken_gap_not_real : Increasing 2 (overtaking 2049) ∧ ∀ qsort : Qsort, ∃ gaps,
    collectedIa qsort (recordAll [emptyTx,emptyTx] (overtaking 2049)) = .next gaps ∧
      ∃ gap ∈ gaps, ∀ earlier later, Adjacent (overtaking 2049) earlier later → (gap.toNat : Int) ≠ later.nanos - earlier.nanos := by
  have increasing : Increasing 2 (overtaking 2049) := overtaking_increasing (by decide)
  refine ⟨increasing,fun qsort => ?_⟩
  have cleared : ∀ txS ∈ [emptyTx,emptyTx], txS.count = 0 := by simp [emptyTx]
  obtain ⟨gaps,collected⟩ := collectedIa_of_timeable qsort cleared increasing overtaking_timeable
  refine ⟨gaps,collected,?_⟩
  have perm := sortedTx_perm qsort cleared (overtaking 2049)
  have mem_sorted {time : Timespec} : time ∈ sortedTx qsort (recordAll [emptyTx,emptyTx] (overtaking 2049)) ↔
      (∃ k < 2048, ⟨1,(k + 2 : Nat)⟩ = time) ∨ time = ⟨1,0⟩ := by
    rw [perm.mem_iff,show keptTimes [emptyTx,emptyTx].length _ = _ from overtaking_kept,List.mem_append,List.mem_map,List.mem_singleton]
    simp only [List.mem_range]
  have absent : ∀ time ∈ sortedTx qsort (recordAll [emptyTx,emptyTx] (overtaking 2049)), time.nanos ≠ 1000000001 := by
    intro time kept
    rcases mem_sorted.mp kept with ⟨k,-,rfl⟩ | rfl
    · simp only [Timespec.nanos]
      omega
    · decide
  obtain ⟨pair,inside,above,below⟩ := exists_neighbours (sortedTx_ascending cleared increasing collected) (mem_sorted.mpr (.inr rfl))
    (mem_sorted.mpr (.inl ⟨0,by decide,rfl⟩)) (by decide) (by decide) absent
  obtain ⟨gap,inGaps,same⟩ :=
    forall₂_mem (interArrivals_exact (fun time inside => kept_normal increasing (perm.mem_iff.mp inside)) collected) inside
  refine ⟨gap,inGaps,fun earlier later adjacent => ?_⟩
  rw [overtaking_adjacent adjacent,same]
  omega

end Lancet.RealGaps
