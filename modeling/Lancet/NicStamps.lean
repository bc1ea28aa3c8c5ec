import Lancet.NicTimestamps

/-! Which requests of a connection with NIC timestamps have got their transmit time. Reading
a report hands its time to the statistics once for every request that it completes, in the
order of the requests. -/
namespace Lancet.NicStamps
open Foundation Timestamping Stats AppProto TpTcp TcpHistory NicRing NicTimestamps

variable {conns : Nat}

/-- The times given for consecutive requests from `first` on. -/
def Stamped (ends : Nat → Nat) (all : List Report) (first : Nat) (times : List Timespec) : Prop :=
  ∀ index time, times[index]? = some time → ∃ report, covering endOf all (ends (first + index)) = some report ∧
    time = report.1

section Stamped

variable {ends : Nat → Nat} {all : List Report} {first : Nat} {times : List Timespec}

theorem Stamped.none : Stamped ends all first [] := fun _ _ impossible => nomatch impossible

theorem Stamped.append {more : List Timespec} (stamped : Stamped ends all first times)
    (later : Stamped ends all (first + times.length) more) : Stamped ends all first (times ++ more) := by
  intro index time present
  rcases Nat.lt_or_ge index times.length with before | after
  · rw [List.getElem?_append_left before] at present
    exact stamped index time present
  · rw [List.getElem?_append_right after] at present
    obtain ⟨report,covers,same⟩ := later _ time present
    have place : first + times.length + (index - times.length) = first + index := by omega
    rw [place] at covers
    exact ⟨report,covers,same⟩

theorem Stamped.replicate {count : Nat} {report : Report}
    (covers : ∀ index, index < count → covering endOf all (ends (first + index)) = some report) :
    Stamped ends all first (List.replicate count report.1) := by
  intro index time present
  obtain ⟨inside,same⟩ := List.getElem?_eq_some_iff.mp present
  rw [List.length_replicate] at inside
  rw [List.getElem_replicate] at same
  exact ⟨report,covers index inside,same.symm⟩

/-- Later requests and reports change nothing about the requests that have their time. -/
theorem Stamped.later {ends' : Nat → Nat} (stamped : Stamped ends all first times) (more : List Report)
    (same : ∀ index, index < first + times.length → ends' index = ends index) : Stamped ends' (all ++ more) first times := by
  intro index time present
  obtain ⟨report,covers,timed⟩ := stamped index time present
  have inside := (List.getElem?_eq_some_iff.mp present).1
  exact ⟨report,by rw [same _ (Nat.add_lt_add_left inside _)]; exact covering_append covers more,timed⟩

end Stamped

theorem completeCovered_recorded (time : Timespec) (receivedOpid : UInt32) (passes : Nat) (ring : PendingTxTimestamps)
    (recorded : List Timespec) :
    ∃ count, (completeCovered time receivedOpid passes ring recorded).2 = recorded ++ List.replicate count time ∧
      (completeCovered time receivedOpid passes ring recorded).1.tail.toNat = ring.tail.toNat + count := by
  induction passes generalizing ring recorded with
  | zero => exact ⟨0,(List.append_nil _).symm,rfl⟩
  | succ passes ih =>
    rw [completeCovered]
    split
    next taken =>
      obtain ⟨count,times,tail⟩ := ih {ring.write ring.tail {ring.entry ring.tail with time := time} with tail := ring.tail + 1}
        (recorded ++ [time])
      have below := UInt32.lt_iff_toNat_lt.mp taken.2
      have advanced : (ring.tail + 1).toNat = ring.tail.toNat + 1 := toNat_succ (by have range := ring.head.toNat_lt; omega)
      refine ⟨count + 1,?_,?_⟩
      · rw [times,List.append_assoc,List.replicate_succ]
        rfl
      · rw [tail]
        dsimp only
        rw [advanced]
        omega
    next => exact ⟨0,(List.append_nil _).symm,rfl⟩

theorem getTxTimestamp_recorded {report : Report} (hardware : report.1.tvSec ≠ 0) {ring : PendingTxTimestamps} {opid : UInt32}
    {tx : TxTimestamp} (bounded : ring.tail.toNat + 1 < 2^32) (read : getTxTimestamp (some (message report)) ring opid = .next tx) :
    ∃ count, tx.recorded = List.replicate count report.1 ∧ tx.ring.tail.toNat = ring.tail.toNat + count := by
  have advanced : (ring.tail + 1).toNat = ring.tail.toNat + 1 := toNat_succ bounded
  by_cases coalesced : (ring.entry ring.tail).optid < report.2 + 1
  · rw [getTxTimestamp_coalesced hardware opid coalesced] at read
    cases read
    obtain ⟨count,times,tail⟩ := completeCovered_recorded report.1 report.2 (ring.head.toNat - (ring.tail + 1).toNat)
      (stampTail ring report.1) [report.1]
    refine ⟨count + 1,?_,?_⟩
    · rw [times,List.replicate_succ]
      rfl
    · rw [tail,stampTail_tail,advanced]
      omega
  · by_cases early : report.2 + 1 < (ring.entry ring.tail).optid
    · rw [getTxTimestamp_early hardware opid early] at read
      cases read
      exact ⟨0,rfl,rfl⟩
    · have matching : (ring.entry ring.tail).optid = report.2 + 1 := UInt32.le_antisymm (UInt32.not_lt.mp early) (UInt32.not_lt.mp coalesced)
      rw [getTxTimestamp_exact hardware opid matching] at read
      cases read
      exact ⟨1,rfl,by rw [stampTail_tail,advanced]⟩

/-- The times that some calls hand to `add_tx_timestamp`. -/
def timeOf : StatsCall → Option Timespec
  | .txTimestamp time => some time
  | _ => none

def times (calls : List StatsCall) : List Timespec := calls.filterMap timeOf

@[simp] theorem times_append (calls more : List StatsCall) : times (calls ++ more) = times calls ++ times more :=
  List.filterMap_append

theorem times_map (recorded : List Timespec) : times (recorded.map .txTimestamp) = recorded := by
  rw [times,List.filterMap_map]
  exact List.filterMap_some

theorem times_nicSample (rx : Timespec) (tx : Option Timespec) : times (nicSample rx tx) = [] := by
  rw [nicSample]
  split
  next => rfl
  next => rfl

/-- What reading does to the tail of a ring: it moves on by the requests that get their time. -/
def Moves (sent : List (SendAttempt conns)) (all : List Report) (before after : PendingTxTimestamps)
    (calls : List StatsCall) : Prop :=
  after.tail.toNat = before.tail.toNat + (times calls).length ∧ Stamped (ends sent) all before.tail.toNat (times calls)

theorem moves_none {sent : List (SendAttempt conns)} {all : List Report} {before after : PendingTxTimestamps}
    (same : after.tail = before.tail) : Moves sent all before after [] :=
  ⟨congrArg UInt32.toNat same,.none⟩

section Reading

variable {sent : List (SendAttempt conns)} {done queued : List Report} {low : Nat}

theorem report_moves {report : Report} {ring : PendingTxTimestamps} {opid : UInt32} {tx : TxTimestamp}
    (tracked : Tracked sent done (report :: queued) low ring) (bounded : offset sent sent.length < 2^32)
    (read : getTxTimestamp (some (message report)) ring opid = .next tx) :
    Moves sent (done ++ report :: queued) ring tx.ring (tx.recorded.map .txTimestamp) := by
  obtain ⟨_,again,after,_⟩ := tracked.read bounded opid
  rw [read] at again
  cases again
  have waiting := tracked.stream.waiting tracked.slots.ordered
  have total := tracked.total bounded
  have hardware := tracked.stream.hardware report (List.mem_append_right _ List.mem_cons_self)
  obtain ⟨count,recorded,tail⟩ := getTxTimestamp_recorded hardware (by omega) read
  have ordered := after.slots.ordered
  rw [Moves,times_map,recorded,List.length_replicate]
  refine ⟨tail,Stamped.replicate fun index below => ?_⟩
  obtain ⟨segment,member,reaches⟩ := after.stream.boundary.covered (ring.tail.toNat + index) (by omega)
  -- the reports before this one end before every request that still waited
  have last : segment = report := by
    rcases List.mem_append.mp member with old | new
    · have short := tracked.stream.boundary.beyond (ring.tail.toNat + index) (Nat.le_add_right _ _) (by omega) segment old
      omega
    · exact List.mem_singleton.mp new
  rw [last] at reaches
  exact tracked.stream.boundary.first (Nat.le_add_right _ _) (by omega) reaches queued

theorem readTxReport_moves {thread after : Thread conns} {idx : Fin conns} {calls : List StatsCall}
    (tracked : Tracked sent done queued low (thread.perConnTxTimestamps idx))
    (queue : thread.errQueue idx = queued.map message) (bounded : offset sent sent.length < 2^32)
    (read : readTxReport thread idx = .next (after,calls)) :
    Moves sent (done ++ queued) (thread.perConnTxTimestamps idx) (after.perConnTxTimestamps idx) calls := by
  cases queued with
  | nil =>
    rw [readTxReport_quiet queue] at read
    cases read
    exact moves_none rfl
  | cons report rest =>
    have head : (thread.errQueue idx).head? = some (message report) := by
      rw [queue]
      rfl
    obtain ⟨tx,reading,returned⟩ := Outcome.bind_next read
    cases returned
    rw [head] at reading
    have moves := report_moves tracked bounded reading
    dsimp only [setRing]
    rw [Function.update_self]
    exact moves

theorem skipBatch_shape (ring : PendingTxTimestamps) (reqs : Nat) :
    ∃ consumed, skipBatch ring reqs = {ring with consumed := consumed} := by
  rw [skipBatch]
  split
  · rw [blindSkipTxTimestamps]
    split
    · exact ⟨_,rfl⟩
    · exact ⟨_,rfl⟩
  · exact ⟨_,rfl⟩

theorem popPendingTxTimestamps_shape {ring ring' : PendingTxTimestamps} {info : Option TimestampInfo}
    (popped : popPendingTxTimestamps ring = .next (ring',info)) : ring'.tail = ring.tail ∧ (info = none → ring' = ring) := by
  obtain ⟨_,-,returned⟩ := Outcome.bind_next popped
  split at returned
  · cases returned
    exact ⟨rfl,fun impossible => nomatch impossible⟩
  · cases returned
    exact ⟨rfl,fun _ => rfl⟩

theorem matchNicTimestamp_moves {thread after : Thread conns} {idx : Fin conns} {reqs : Nat} {tx : Option Timespec}
    {calls : List StatsCall} (tracked : Tracked sent done queued low (thread.perConnTxTimestamps idx))
    (queue : thread.errQueue idx = queued.map message) (bounded : offset sent sent.length < 2^32)
    (matched : matchNicTimestamp thread idx reqs = .next (after,tx,calls)) :
    Moves sent (done ++ queued) (thread.perConnTxTimestamps idx) (after.perConnTxTimestamps idx) calls := by
  obtain ⟨consumed,skipped⟩ := skipBatch_shape (thread.perConnTxTimestamps idx) reqs
  obtain ⟨⟨ring,info⟩,popped,rest⟩ := Outcome.bind_next matched
  rw [skipped] at popped
  obtain ⟨tail,unchanged⟩ := popPendingTxTimestamps_shape popped
  cases info with
  | some found =>
    cases rest
    refine moves_none ?_
    dsimp only [setRing]
    rw [Function.update_self]
    exact tail
  | none =>
    have same := unchanged rfl
    have here : (setRing thread idx ring).perConnTxTimestamps idx = ring := Function.update_self _ _ _
    obtain ⟨⟨middle,read⟩,reading,rest⟩ := Outcome.bind_next rest
    have tracked' : Tracked sent done queued low ((setRing thread idx ring).perConnTxTimestamps idx) := by
      rw [here,same]
      exact tracked.forget (Nat.le_refl _) tracked.slots.behind consumed
    obtain ⟨moved,stamped⟩ := readTxReport_moves tracked' queue bounded reading
    rw [here,tail] at moved stamped
    obtain ⟨⟨ring',info⟩,popped',rest⟩ := Outcome.bind_next rest
    obtain ⟨tail',-⟩ := popPendingTxTimestamps_shape popped'
    cases info with
    | some found =>
      cases rest
      refine ⟨?_,stamped⟩
      dsimp only [setRing]
      rw [Function.update_self,tail']
      exact moved
    | none =>
      cases rest
      refine ⟨?_,stamped⟩
      dsimp only [setRing]
      rw [Function.update_self]
      dsimp only
      rw [tail']
      exact moved

end Reading

end Lancet.NicStamps
