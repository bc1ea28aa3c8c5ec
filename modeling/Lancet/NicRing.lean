import Lancet.TcpHistory
import Lancet.Foundation.Coverage
import Mathlib.Algebra.BigOperators.Group.List.Basic

/-! The ring of a connection with NIC timestamps, against the requests sent and the
reports of the kernel. A report is matched with the requests it covers as long as no more
requests wait for a report than the ring has slots. -/
namespace Lancet.NicRing
open Foundation Timestamping Stats AppProto TpTcp TcpHistory

variable {conns : Nat}

/-- A report carries the time and the offset of the last byte of a segment. -/
abbrev Report := Timespec × UInt32

def endOf (report : Report) : Nat := report.2.toNat + 1

def message (report : Report) : List Cmsg := [.timestamping report.1,.ipRecverr true report.2]

def reportOf (idx : Fin conns) : Event conns × Effect conns → Option Report
  | (.txReport other [.timestamping time,.ipRecverr true id],_) => if other = idx then some (time,id) else none
  | _ => none

def reports (idx : Fin conns) (log : List (Event conns × Effect conns)) : List Report :=
  log.filterMap (reportOf idx)

theorem reports_snoc (idx : Fin conns) (log : List (Event conns × Effect conns)) (event : Event conns)
    (effect : Effect conns) :
    reports idx (log ++ [(event,effect)]) = reports idx log ++ (reportOf idx (event,effect)).toList := by
  simp only [reports,List.filterMap_append,List.filterMap_cons,List.filterMap_nil]
  cases reportOf idx (event,effect) with
  | none => rfl
  | some report => rfl

/-- The bytes of the first `count` requests. -/
def offset (sent : List (SendAttempt conns)) (count : Nat) : Nat := ((sent.take count).map (·.bytesToSend)).sum

def ends (sent : List (SendAttempt conns)) (index : Nat) : Nat := offset sent (index + 1)

section Offsets

variable {sent : List (SendAttempt conns)}

theorem offset_succ (index : Nat) (inside : index < sent.length) :
    offset sent (index + 1) = offset sent index + sent[index].bytesToSend := by
  rw [offset,offset,List.take_add_one,List.getElem?_eq_getElem inside,Option.toList_some,List.map_append,
    List.sum_append,List.map_singleton,List.sum_singleton]

theorem offset_mono {first second : Nat} (ordered : first ≤ second) : offset sent first ≤ offset sent second := by
  have split : sent.take second = sent.take first ++ (sent.drop first).take (second - first) := by
    rw [← List.take_add,Nat.add_sub_cancel' ordered]
  rw [offset,offset,split,List.map_append,List.sum_append]
  exact Nat.le_add_right _ _

theorem ends_mono (first second : Nat) (ordered : first ≤ second) : ends sent first ≤ ends sent second :=
  offset_mono (Nat.succ_le_succ ordered)

theorem ends_strict (positive : ∀ attempt ∈ sent, 0 < attempt.bytesToSend) {first second : Nat}
    (ordered : first < second) (inside : second < sent.length) : ends sent first < ends sent second := by
  have below : ends sent first ≤ offset sent second := offset_mono ordered
  have step : ends sent second = offset sent second + sent[second].bytesToSend := offset_succ second inside
  have least := positive _ (List.getElem_mem inside)
  omega

theorem ends_append (attempt : SendAttempt conns) (index : Nat) (inside : index < sent.length) :
    ends (sent ++ [attempt]) index = ends sent index := by
  rw [ends,ends,offset,offset,List.take_append_of_le_length inside]

theorem ends_last (attempt : SendAttempt conns) :
    ends (sent ++ [attempt]) sent.length = offset sent sent.length + attempt.bytesToSend := by
  simp [ends,offset]

theorem offset_append (attempt : SendAttempt conns) :
    offset (sent ++ [attempt]) (sent ++ [attempt]).length = offset sent sent.length + attempt.bytesToSend := by
  simp [offset]

end Offsets

def Reported (ends : Nat → Nat) (all : List Report) (index : Nat) (info : TimestampInfo) : Prop :=
  ∃ report, covering endOf all (ends index) = some report ∧ info.time = report.1

def Marked (ends : Nat → Nat) (index : Nat) (info : TimestampInfo) : Prop := info.optid.toNat = ends index

def stampTail (ring : PendingTxTimestamps) (time : Timespec) : PendingTxTimestamps :=
  {ring.write ring.tail {ring.entry ring.tail with time := time} with tail := ring.tail + 1}

@[simp] theorem stampTail_tail (ring : PendingTxTimestamps) (time : Timespec) :
    (stampTail ring time).tail = ring.tail + 1 := rfl

/-- The slots from `tail` on hold the ends of their requests, those below it the times, from
`low` on, where the answers are. -/
structure Slots (ends : Nat → Nat) (all : List Report) (low total : Nat) (ring : PendingTxTimestamps) : Prop where
  head : ring.head.toNat = total
  ordered : ring.tail.toNat ≤ total
  room : total ≤ ring.tail.toNat + maxPendingReqs
  behind : low ≤ total
  span : total ≤ low + maxPendingReqs
  marks : Window (Marked ends) ring.read ring.tail.toNat total
  times : Window (Reported ends all) ring.read low ring.tail.toNat

namespace Slots

variable {ends : Nat → Nat} {all : List Report} {low total : Nat} {ring : PendingTxTimestamps}

theorem forget (slots : Slots ends all low total ring) {low' : Nat} (forward : low ≤ low') (behind : low' ≤ total)
    (consumed : UInt32) : Slots ends all low' total {ring with consumed := consumed} :=
  ⟨slots.head,slots.ordered,slots.room,behind,Nat.le_trans slots.span (Nat.add_le_add_right forward _),
    slots.marks,slots.times.narrow forward (Nat.le_refl _)⟩

theorem more (slots : Slots ends all low total ring) (later : List Report) : Slots ends (all ++ later) low total ring :=
  ⟨slots.head,slots.ordered,slots.room,slots.behind,slots.span,slots.marks,slots.times.weaken (by
    intro index info _ reported
    obtain ⟨report,found,timed⟩ := reported
    exact ⟨report,covering_append found later,timed⟩)⟩

/-- A time written at the tail leaves everything below the tail as it was. -/
theorem smudge (slots : Slots ends all low total ring) (waiting : ring.tail.toNat < total) (time : Timespec) :
    Slots ends all low total (ring.write ring.tail {ring.entry ring.tail with time := time}) := by
  have written := ring.write_overwrites ring.tail {ring.entry ring.tail with time := time}
  have marked : Marked ends ring.tail.toNat {ring.entry ring.tail with time := time} :=
    slots.marks _ (Nat.le_refl _) waiting
  have room := slots.room
  have span := slots.span
  refine ⟨slots.head,slots.ordered,slots.room,slots.behind,slots.span,?_,?_⟩
  · exact slots.marks.overwrite written (Nat.le_refl _) (by unfold maxPendingReqs; omega) room marked
  · intro index above below
    have near : low ≤ ring.tail.toNat := by
      simp only [PendingTxTimestamps.write_tail] at below
      omega
    rw [written.near near above (by omega) (by simp only [PendingTxTimestamps.write_tail] at below; omega)
      (Nat.ne_of_lt below)]
    exact slots.times index above below

theorem stamp (slots : Slots ends all low total ring) (waiting : ring.tail.toNat < total) (bounded : total < 2^32)
    {report : Report} (found : covering endOf all (ends ring.tail.toNat) = some report) :
    Slots ends all low total (stampTail ring report.1) := by
  have smudged := slots.smudge waiting report.1
  have advanced : (ring.tail + 1).toNat = ring.tail.toNat + 1 := toNat_succ (by omega)
  have written := ring.write_overwrites ring.tail {ring.entry ring.tail with time := report.1}
  refine ⟨slots.head,?_,?_,slots.behind,slots.span,?_,?_⟩
  · rw [stampTail_tail,advanced]
    exact waiting
  · rw [stampTail_tail,advanced]
    exact Nat.le_trans slots.room (by omega)
  · rw [stampTail_tail,advanced]
    exact smudged.marks.narrow (Nat.le_succ _) (Nat.le_refl _)
  · rw [stampTail_tail,advanced]
    apply smudged.times.extend
    rw [PendingTxTimestamps.write_tail,written.self]
    exact ⟨report,found,rfl⟩

theorem push (slots : Slots ends all low total ring) {ends' : Nat → Nat} {bytes : UInt32}
    (room : total < ring.tail.toNat + maxPendingReqs) (space : total < low + maxPendingReqs) (bounded : total + 1 < 2^32)
    (same : ∀ index, index < total → ends' index = ends index)
    (last : (ring.txByteCounter + bytes).toNat = ends' total) :
    Slots ends' all low (total + 1) (addPendingTxTimestamp ring bytes) := by
  have written := ring.write_overwrites ring.head {ring.entry ring.head with optid := ring.txByteCounter + bytes}
  rw [slots.head] at written
  have ordered := slots.ordered
  refine ⟨?_,Nat.le_succ_of_le slots.ordered,room,Nat.le_succ_of_le slots.behind,space,?_,?_⟩
  · rw [← slots.head]
    exact toNat_succ (by rw [slots.head]; exact bounded)
  · have kept : Window (Marked ends') ring.read ring.tail.toNat total := slots.marks.weaken (by
      intro index info below marked
      rw [Marked,same index below]
      exact marked)
    exact kept.push written ordered room last
  · intro index above below
    have old := slots.times index above below
    have inside : index < ring.tail.toNat := below
    have value : (addPendingTxTimestamp ring bytes).read index = ring.read index :=
      written.near (by omega) above space (by omega) (by omega)
    rw [value]
    obtain ⟨report,found,timed⟩ := old
    exact ⟨report,by rw [same index (by omega)]; exact found,timed⟩

end Slots

theorem extract_message {report : Report} (hardware : report.1.tvSec ≠ 0) (dest : TimestampInfo) (opid : UInt32) :
    extractTimestamps (message report) dest opid = .next (
      if dest.optid < report.2 + 1 then ⟨0,{dest with time := report.1},report.2⟩
      else if report.2 + 1 < dest.optid then ⟨-1,{dest with time := report.1},opid⟩
      else ⟨1,{dest with time := report.1},opid⟩) := by
  have first : extractOne ⟨-1,dest,opid⟩ (.timestamping report.1) = .next ⟨1,{dest with time := report.1},opid⟩ := by
    simp [extractOne,hardware]
  have second : extractOne ⟨1,{dest with time := report.1},opid⟩ (.ipRecverr true report.2) = .next (
      if dest.optid < report.2 + 1 then ⟨0,{dest with time := report.1},report.2⟩
      else if report.2 + 1 < dest.optid then ⟨-1,{dest with time := report.1},opid⟩
      else ⟨1,{dest with time := report.1},opid⟩) := by
    simp only [extractOne]
    split
    · rfl
    · split <;> rfl
  simp only [extractTimestamps,message,List.foldlM_cons,List.foldlM_nil,first,second,Outcome.next_bind]
  rfl

section Reports

variable {report : Report} (hardware : report.1.tvSec ≠ 0) {ring : PendingTxTimestamps} (opid : UInt32)
include hardware

theorem getTxTimestamp_early (early : report.2 + 1 < (ring.entry ring.tail).optid) :
    getTxTimestamp (some (message report)) ring opid =
      .next ⟨ring.write ring.tail {ring.entry ring.tail with time := report.1},opid,[],0⟩ := by
  have later : ¬ (ring.entry ring.tail).optid < report.2 + 1 := fun smaller =>
    UInt32.lt_irrefl _ (UInt32.lt_trans smaller early)
  simp only [getTxTimestamp,extract_message hardware,Outcome.next_bind,if_neg later,if_pos early,if_true]
  rfl

theorem getTxTimestamp_exact (same : (ring.entry ring.tail).optid = report.2 + 1) :
    getTxTimestamp (some (message report)) ring opid = .next ⟨stampTail ring report.1,opid,[report.1],1⟩ := by
  have notBelow : ¬ (ring.entry ring.tail).optid < report.2 + 1 := by rw [same]; exact UInt32.lt_irrefl _
  have notAbove : ¬ report.2 + 1 < (ring.entry ring.tail).optid := by rw [same]; exact UInt32.lt_irrefl _
  simp only [getTxTimestamp,extract_message hardware,Outcome.next_bind,if_neg notBelow,if_neg notAbove]
  rfl

theorem getTxTimestamp_coalesced (coalesced : (ring.entry ring.tail).optid < report.2 + 1) :
    getTxTimestamp (some (message report)) ring opid =
      .next ⟨(completeCovered report.1 report.2 (ring.head.toNat - (ring.tail + 1).toNat) (stampTail ring report.1)
        [report.1]).1,report.2,(completeCovered report.1 report.2 (ring.head.toNat - (ring.tail + 1).toNat)
        (stampTail ring report.1) [report.1]).2,1⟩ := by
  simp only [getTxTimestamp,extract_message hardware,Outcome.next_bind,if_pos coalesced]
  rfl

end Reports

/-- The loop stamps every waiting request that ends within the reported bytes. -/
theorem completeCovered_spec {ends : Nat → Nat} {all : List Report} {low total : Nat} {report : Report}
    (bounded : total < 2^32) (size : report.2.toNat + 1 < 2^32) (passes : Nat) {ring : PendingTxTimestamps}
    (recorded : List Timespec) (slots : Slots ends all low total ring) (enough : total ≤ ring.tail.toNat + passes)
    (first : ∀ index, ring.tail.toNat ≤ index → index < total → ends index ≤ endOf report →
      covering endOf all (ends index) = some report) :
    ∃ final, (completeCovered report.1 report.2 passes ring recorded).1 = final ∧ Slots ends all low total final ∧
      final.consumed = ring.consumed ∧ final.txByteCounter = ring.txByteCounter ∧
      ring.tail.toNat ≤ final.tail.toNat ∧
      (∀ index, ring.tail.toNat ≤ index → index < final.tail.toNat → ends index ≤ endOf report) ∧
      (final.tail.toNat < total → endOf report < ends final.tail.toNat) := by
  induction passes generalizing ring recorded with
  | zero =>
    refine ⟨ring,rfl,slots,rfl,rfl,Nat.le_refl _,fun index above below => absurd below (Nat.not_lt.mpr above),?_⟩
    intro waiting
    omega
  | succ passes ih =>
    have reached : (report.2 + 1).toNat = endOf report := toNat_succ size
    rw [completeCovered]
    split
    next taken =>
      obtain ⟨covers,waiting⟩ := taken
      rw [UInt32.le_iff_toNat_le,reached] at covers
      rw [UInt32.lt_iff_toNat_lt,slots.head] at waiting
      have mark : (ring.entry ring.tail).optid.toNat = ends ring.tail.toNat := slots.marks _ (Nat.le_refl _) waiting
      rw [mark] at covers
      have advanced : (ring.tail + 1).toNat = ring.tail.toNat + 1 := toNat_succ (by omega)
      have stamped := slots.stamp waiting bounded (first _ (Nat.le_refl _) waiting covers)
      obtain ⟨final,result,finished,consumed,counter,forward,within,stops⟩ := ih (recorded ++ [report.1]) stamped
        (by rw [stampTail_tail,advanced]; omega)
        (by rw [stampTail_tail,advanced]; exact fun index above => first index (Nat.le_of_succ_le above))
      rw [stampTail_tail,advanced] at forward within
      refine ⟨final,result,finished,consumed,counter,Nat.le_of_succ_le forward,?_,stops⟩
      intro index above below
      rcases Nat.eq_or_lt_of_le above with same | later
      · rw [← same]
        exact covers
      · exact within index later below
    next left =>
      refine ⟨ring,rfl,slots,rfl,rfl,Nat.le_refl _,fun index above below => absurd below (Nat.not_lt.mpr above),?_⟩
      intro waiting
      have mark : (ring.entry ring.tail).optid.toNat = ends ring.tail.toNat := slots.marks _ (Nat.le_refl _) waiting
      by_contra covers
      apply left
      constructor
      · rw [UInt32.le_iff_toNat_le,reached,mark]
        exact Nat.not_lt.mp covers
      · rw [UInt32.lt_iff_toNat_lt,slots.head]
        exact waiting

/-- The reports that were read, those still queued, and the requests they cover. -/
structure Stream (sent : List (SendAttempt conns)) (done queued : List Report) (front : Nat) : Prop where
  positive : ∀ attempt ∈ sent, 0 < attempt.bytesToSend
  increasing : (done ++ queued).Pairwise (fun earlier later => earlier.2 < later.2)
  inside : ∀ report ∈ done ++ queued, report.2.toNat < offset sent sent.length
  hardware : ∀ report ∈ done ++ queued, report.1.tvSec ≠ 0
  boundary : Boundary endOf (ends sent) done front sent.length

structure Tracked (sent : List (SendAttempt conns)) (done queued : List Report) (low : Nat)
    (ring : PendingTxTimestamps) : Prop where
  stream : Stream sent done queued ring.tail.toNat
  slots : Slots (ends sent) (done ++ queued) low sent.length ring
  counter : ring.txByteCounter.toNat = offset sent sent.length

theorem length_le_offset {sent : List (SendAttempt conns)} (positive : ∀ attempt ∈ sent, 0 < attempt.bytesToSend) :
    sent.length ≤ offset sent sent.length := by
  have sizes : (sent.map (·.bytesToSend)).length ≤ (sent.map (·.bytesToSend)).sum := by
    apply List.length_le_sum_of_one_le
    intro bytes member
    obtain ⟨attempt,present,rfl⟩ := List.mem_map.mp member
    exact positive attempt present
  simpa [offset] using sizes

section Reading

variable {sent : List (SendAttempt conns)} {done queued : List Report} {report : Report} {low front : Nat}
  {ring : PendingTxTimestamps}

theorem shift_report (done queued : List Report) (report : Report) :
    done ++ [report] ++ queued = done ++ report :: queued := by
  rw [List.append_assoc,List.singleton_append]

theorem Stream.advance (stream : Stream sent done (report :: queued) front) {front' : Nat} (forward : front ≤ front')
    (covers : ∀ index, front ≤ index → index < front' → ends sent index ≤ endOf report)
    (stops : front' < sent.length → endOf report < ends sent front') :
    Stream sent (done ++ [report]) queued front' := by
  obtain ⟨positive,increasing,inside,hardware,boundary⟩ := stream
  refine ⟨positive,?_,?_,?_,?_⟩
  · rw [shift_report]
    exact increasing
  · rw [shift_report]
    exact inside
  · rw [shift_report]
    exact hardware
  · apply boundary.advance forward covers
    intro index above below
    exact Nat.lt_of_lt_of_le (stops (Nat.lt_of_le_of_lt above below)) (ends_mono front' index above)

/-- A report that waits to be read is about a request without a time. -/
theorem Stream.waiting (stream : Stream sent done (report :: queued) front) (ordered : front ≤ sent.length) :
    front < sent.length := by
  have member : report ∈ done ++ report :: queued := List.mem_append_right _ List.mem_cons_self
  have inside := stream.inside report member
  apply stream.boundary.open_front ordered
  · intro earlier present
    have order := (List.pairwise_append.mp stream.increasing).2.2 earlier present report List.mem_cons_self
    rw [UInt32.lt_iff_toNat_lt] at order
    exact Nat.succ_lt_succ order
  · cases length : sent.length with
    | zero =>
      rw [length,offset,List.take_zero] at inside
      exact absurd inside (Nat.not_lt_zero _)
    | succ last =>
      rw [length] at inside
      exact ⟨last,Nat.lt_succ_self last,inside⟩
  · exact ends_mono

theorem Tracked.read (tracked : Tracked sent done (report :: queued) low ring) (bounded : offset sent sent.length < 2^32)
    (opid : UInt32) :
    ∃ tx, getTxTimestamp (some (message report)) ring opid = .next tx ∧
      Tracked sent (done ++ [report]) queued low tx.ring ∧ tx.ring.consumed = ring.consumed := by
  obtain ⟨stream,slots,counter⟩ := tracked
  have waiting := stream.waiting slots.ordered
  have member : report ∈ done ++ report :: queued := List.mem_append_right _ List.mem_cons_self
  have size : report.2.toNat + 1 < 2^32 := by
    have inside := stream.inside report member
    omega
  have reached : (report.2 + 1).toNat = endOf report := toNat_succ size
  have total : sent.length < 2^32 := Nat.lt_of_le_of_lt (length_le_offset stream.positive) bounded
  have mark : (ring.entry ring.tail).optid.toNat = ends sent ring.tail.toNat := slots.marks _ (Nat.le_refl _) waiting
  have first : ∀ index, ring.tail.toNat ≤ index → index < sent.length → ends sent index ≤ endOf report →
      covering endOf (done ++ report :: queued) (ends sent index) = some report :=
    fun index above below covers => stream.boundary.first above below covers queued
  have advanced : (ring.tail + 1).toNat = ring.tail.toNat + 1 := toNat_succ (by omega)
  have hardware := stream.hardware report member
  rcases Nat.lt_trichotomy (ends sent ring.tail.toNat) (endOf report) with covers | same | early
  · have coalesced : (ring.entry ring.tail).optid < report.2 + 1 := by
      rw [UInt32.lt_iff_toNat_lt,mark,reached]
      exact covers
    have stamped := slots.stamp waiting total (first _ (Nat.le_refl _) waiting (Nat.le_of_lt covers))
    obtain ⟨final,result,finished,consumed,bytes,forward,within,stops⟩ := completeCovered_spec total size
      (ring.head.toNat - (ring.tail + 1).toNat) [report.1] stamped
      (by have ordered := slots.head; rw [stampTail_tail,advanced]; omega)
      (by rw [stampTail_tail,advanced]; exact fun index above => first index (Nat.le_of_succ_le above))
    rw [stampTail_tail,advanced] at forward within
    have read := getTxTimestamp_coalesced hardware opid coalesced
    rw [result] at read
    refine ⟨_,read,⟨?_,?_,?_⟩,consumed⟩
    · apply stream.advance (Nat.le_of_succ_le forward) _ stops
      intro index above below
      rcases Nat.eq_or_lt_of_le above with equal | later
      · rw [← equal]
        exact Nat.le_of_lt covers
      · exact within index later below
    · rw [shift_report]
      exact finished
    · rw [bytes]
      exact counter
  · have optid : (ring.entry ring.tail).optid = report.2 + 1 := by
      apply UInt32.toNat_inj.mp
      rw [mark,reached]
      exact same
    refine ⟨_,getTxTimestamp_exact hardware opid optid,⟨?_,?_,counter⟩,rfl⟩
    · rw [stampTail_tail,advanced]
      apply stream.advance (Nat.le_succ _)
      · intro index above below
        rw [show index = ring.tail.toNat by omega]
        exact Nat.le_of_eq same
      · intro later
        rw [← same]
        exact ends_strict stream.positive (Nat.lt_succ_self _) later
    · rw [shift_report]
      exact slots.stamp waiting total (first _ (Nat.le_refl _) waiting (Nat.le_of_eq same))
  · have later : report.2 + 1 < (ring.entry ring.tail).optid := by
      rw [UInt32.lt_iff_toNat_lt,mark,reached]
      exact early
    refine ⟨_,getTxTimestamp_early hardware opid later,⟨?_,?_,counter⟩,rfl⟩
    · apply stream.advance (Nat.le_refl _)
      · intro index above below
        exact absurd below (Nat.not_lt.mpr above)
      · exact fun _ => early
    · rw [shift_report]
      exact slots.smudge waiting report.1

end Reading

section Answering

variable {sent : List (SendAttempt conns)} {done queued : List Report} {low : Nat} {ring : PendingTxTimestamps}

theorem Tracked.forget (tracked : Tracked sent done queued low ring) {low' : Nat} (forward : low ≤ low')
    (behind : low' ≤ sent.length) (consumed : UInt32) : Tracked sent done queued low' {ring with consumed := consumed} :=
  ⟨tracked.stream,tracked.slots.forget forward behind consumed,tracked.counter⟩

theorem Tracked.total (tracked : Tracked sent done queued low ring) (bounded : offset sent sent.length < 2^32) :
    sent.length < 2^32 :=
  Nat.lt_of_le_of_lt (length_le_offset tracked.stream.positive) bounded

theorem Tracked.send
    (tracked : Tracked sent done queued low ring) (attempt : SendAttempt conns) (positive : 0 < attempt.bytesToSend)
    (bounded : offset sent sent.length + attempt.bytesToSend < 2^32)
    (room : sent.length < ring.tail.toNat + maxPendingReqs) (space : sent.length < low + maxPendingReqs) :
    Tracked (sent ++ [attempt]) done queued low (addPendingTxTimestamp ring (UInt32.ofNat attempt.bytesToSend)) := by
  obtain ⟨stream,slots,counter⟩ := tracked
  have least := length_le_offset stream.positive
  have added : (ring.txByteCounter + UInt32.ofNat attempt.bytesToSend).toNat =
      offset sent sent.length + attempt.bytesToSend := by
    rw [UInt32.toNat_add,counter,UInt32.toNat_ofNat_of_lt' (by unfold UInt32.size; omega)]
    exact Nat.mod_eq_of_lt bounded
  have grown : (sent ++ [attempt]).length = sent.length + 1 := List.length_append
  refine ⟨⟨?_,stream.increasing,?_,stream.hardware,?_⟩,?_,?_⟩
  · intro other member
    rcases List.mem_append.mp member with old | new
    · exact stream.positive other old
    · rw [List.mem_singleton.mp new]
      exact positive
  · intro report member
    rw [offset_append]
    exact Nat.lt_of_lt_of_le (stream.inside report member) (Nat.le_add_right _ _)
  · rw [grown]
    apply stream.boundary.grow slots.ordered (ends_append attempt)
    intro report member
    have inside := stream.inside report (List.mem_append_left _ member)
    rw [ends_last,endOf]
    omega
  · rw [grown]
    exact slots.push room space (by omega) (ends_append attempt) (by rw [added,ends_last])
  · rw [offset_append,← added]
    rfl

theorem Tracked.report
    (tracked : Tracked sent done queued low ring) {report : Report} (hardware : report.1.tvSec ≠ 0)
    (inside : report.2.toNat < offset sent sent.length) (later : ∀ earlier ∈ done ++ queued, earlier.2 < report.2) :
    Tracked sent done (queued ++ [report]) low ring := by
  obtain ⟨stream,slots,counter⟩ := tracked
  refine ⟨⟨stream.positive,?_,?_,?_,stream.boundary⟩,?_,counter⟩
  · rw [← List.append_assoc]
    apply List.pairwise_append.mpr
    exact ⟨stream.increasing,List.pairwise_singleton _ _,fun earlier member new newest => by
      rw [List.mem_singleton.mp newest]
      exact later earlier member⟩
  · intro other member
    rw [← List.append_assoc] at member
    rcases List.mem_append.mp member with old | new
    · exact stream.inside other old
    · rw [List.mem_singleton.mp new]
      exact inside
  · intro other member
    rw [← List.append_assoc] at member
    rcases List.mem_append.mp member with old | new
    · exact stream.hardware other old
    · rw [List.mem_singleton.mp new]
      exact hardware
  · rw [← List.append_assoc]
    exact slots.more [report]

def advanceOn (info : Option TimestampInfo) (ring : PendingTxTimestamps) : PendingTxTimestamps :=
  if info.isSome then {ring with consumed := ring.consumed + 1} else ring

/-- A pop finds the reported time of the next request or nothing. -/
theorem Tracked.pop (tracked : Tracked sent done queued low ring) (consumed : ring.consumed.toNat = low)
    (asked : low < sent.length) :
    ∃ info, popPendingTxTimestamps ring = .next (advanceOn info ring,info) ∧
      ∀ found, info = some found → Reported (ends sent) (done ++ queued) low found := by
  have ordered : ring.consumed ≤ ring.head := by
    rw [UInt32.le_iff_toNat_le,consumed,tracked.slots.head]
    exact Nat.le_of_lt asked
  by_cases known : ring.consumed < ring.tail
  · refine ⟨some (ring.entry ring.consumed),popPendingTxTimestamps_some ordered known,?_⟩
    intro found same
    cases same
    rw [UInt32.lt_iff_toNat_lt,consumed] at known
    have reported := tracked.slots.times low (Nat.le_refl _) known
    rw [← consumed] at reported ⊢
    exact reported
  · exact ⟨none,popPendingTxTimestamps_none ordered known,fun found popped => nomatch popped⟩

end Answering

end Lancet.NicRing
