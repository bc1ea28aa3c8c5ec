import Lancet.NicStamps

/-! The slots of a connection with NIC timestamps, when requests are held back until reports
are read. The gate of the loop counts requests without an answer; the ring needs one on
requests without a report. -/
namespace Lancet.NicRingBound
open Foundation Timestamping Stats AppProto TpTcp TcpHistory NicRing NicTimestamps NicStamps

variable {conns : Nat}

/-- The times that reading reports on the connection handed to the statistics. -/
def stampsBy (idx : Fin conns) : Event conns × Effect conns → List Timespec
  | (.epollIn other _ _,effect) => if other = idx then times effect.calls else []
  | (.epollErr other,effect) => if other = idx then times effect.calls else []
  | _ => []

def stamps (idx : Fin conns) (log : List (Event conns × Effect conns)) : List Timespec := log.flatMap (stampsBy idx)

theorem stamps_snoc (idx : Fin conns) (log : List (Event conns × Effect conns)) (entry : Event conns × Effect conns) :
    stamps idx (log ++ [entry]) = stamps idx log ++ stampsBy idx entry := by
  rw [stamps,List.flatMap_append,List.flatMap_singleton]
  rfl

/-- The reports that have left the error queue of the connection. -/
def readReports (idx : Fin conns) (log : List (Event conns × Effect conns)) (thread : Thread conns) : List Report :=
  (reports idx log).take ((reports idx log).length - (thread.errQueue idx).length)

/-- No report about the request has been read. -/
def Outstanding (idx : Fin conns) (log : List (Event conns × Effect conns)) (thread : Thread conns) (index : Nat) : Prop :=
  ∀ report ∈ readReports idx log thread, endOf report < ends (requests idx log) index

instance (idx : Fin conns) (log : List (Event conns × Effect conns)) (thread : Thread conns) (index : Nat) :
    Decidable (Outstanding idx log thread index) :=
  inferInstanceAs (Decidable (∀ report ∈ readReports idx log thread, _))

def outstanding (idx : Fin conns) (log : List (Event conns × Effect conns)) (thread : Thread conns) : Nat :=
  (List.range (requests idx log).length).countP (fun index => Outstanding idx log thread index)

/-- A request is sent only while fewer requests than slots wait for a report to be read. -/
def HeldBack (proto : ApplicationProtocol) (idx : Fin conns) :
    Machine.Environment (Thread conns) (Event conns) (Effect conns) :=
  fun log thread event => Nic proto idx log thread event ∧ match event with
    | .send attempt => Sends thread attempt idx → outstanding idx log thread < maxPendingReqs
    | _ => True

theorem countP_range_from (front total : Nat) : (List.range total).countP (fun index => front ≤ index) = total - front := by
  induction total with
  | zero => exact (Nat.zero_sub _).symm
  | succ total ih =>
    rw [List.range_succ,List.countP_append,ih,List.countP_singleton]
    split
    next above =>
      have above := of_decide_eq_true above
      omega
    next below =>
      have below : ¬front ≤ total := fun above => below (decide_eq_true above)
      omega

section Attached

variable {idx : Fin conns} {log : List (Event conns × Effect conns)} {thread : Thread conns} {done queued : List Report}

theorem readReports_eq (attached : Attached idx log thread done queued) : readReports idx log thread = done := by
  rw [readReports,attached.queue,attached.split,List.length_map,List.length_append,Nat.add_sub_cancel,List.take_left]

theorem outstanding_iff (attached : Attached idx log thread done queued) {index : Nat} (inside : index < (requests idx log).length) :
    Outstanding idx log thread index ↔ (thread.perConnTxTimestamps idx).tail.toNat ≤ index := by
  rw [Outstanding,readReports_eq attached]
  have boundary := attached.tracked.stream.boundary
  constructor
  · intro waits
    by_contra below
    obtain ⟨report,member,reaches⟩ := boundary.covered index (Nat.not_le.mp below)
    exact absurd (waits report member) (Nat.not_lt.mpr reaches)
  · exact fun above report member => boundary.beyond index above inside report member

theorem outstanding_eq (attached : Attached idx log thread done queued) :
    outstanding idx log thread = (requests idx log).length - (thread.perConnTxTimestamps idx).tail.toNat := by
  rw [outstanding,← countP_range_from]
  refine List.countP_congr fun index member => ?_
  rw [decide_eq_true_iff,decide_eq_true_iff]
  exact outstanding_iff attached (List.mem_range.mp member)

end Attached

/-- Held back requests find a free slot. -/
theorem room_run {proto : ApplicationProtocol} {idx : Fin conns} {now : Int} {log : List (Event conns × Effect conns)}
    {thread : Thread conns}
    (run : (symmetricNicTcpMain proto).Run (HeldBack proto idx) (throughputOpenConnections conns now) log thread) :
    (symmetricNicTcpMain proto).Run (NicRoom proto idx) (throughputOpenConnections conns now) log thread := by
  induction run with
  | nil => exact .nil
  | @snoc log before after event effect past allowed stepped ih =>
    refine .snoc ih ⟨allowed.1,?_⟩ stepped
    cases event with
    | send attempt =>
      intro sends
      obtain ⟨done,queued,attached⟩ := attached_run ih
      have few := allowed.2 sends
      have head := attached.tracked.slots.head
      have ordered := attached.tracked.slots.ordered
      rw [outstanding_eq attached] at few
      omega
    | idle now => trivial
    | epollIn chosen recv rx => trivial
    | epollErr chosen => trivial
    | epollHup chosen => trivial
    | epollOther chosen => trivial
    | txReport chosen cmsgs => trivial

/-- Every request below the tail has been given one time. -/
structure Given (idx : Fin conns) (log : List (Event conns × Effect conns)) (thread : Thread conns) : Prop where
  count : (stamps idx log).length = (thread.perConnTxTimestamps idx).tail.toNat
  stamped : Stamped (ends (requests idx log)) (reports idx log) 0 (stamps idx log)

section Steps

variable {proto : ApplicationProtocol} {log : List (Event conns × Effect conns)} {before after : Thread conns}
  {idx chosen : Fin conns} {effect : Effect conns} {event : Event conns} {done queued : List Report}

theorem ends_requests (entry : Event conns × Effect conns) (index : Nat) (inside : index < (requests idx log).length) :
    ends (requests idx (log ++ [entry])) index = ends (requests idx log) index := by
  obtain ⟨event,effect⟩ := entry
  rw [requests_snoc]
  cases requestOf idx (event,effect) with
  | none => rw [Option.toList_none,List.append_nil]
  | some attempt => exact ends_append attempt index inside

theorem Given.moves (given : Given idx log before) {calls : List StatsCall}
    (moves : Moves (requests idx log) (reports idx log) (before.perConnTxTimestamps idx) (after.perConnTxTimestamps idx) calls)
    (here : stampsBy idx (event,effect) = times calls)
    (ordered : (after.perConnTxTimestamps idx).tail.toNat ≤ (requests idx log).length) :
    Given idx (log ++ [(event,effect)]) after := by
  obtain ⟨moved,stamped⟩ := moves
  have all : Stamped (ends (requests idx log)) (reports idx log) 0 (stamps idx log ++ times calls) := by
    refine given.stamped.append ?_
    rw [Nat.zero_add,given.count]
    exact stamped
  have length : (stamps idx log ++ times calls).length = (after.perConnTxTimestamps idx).tail.toNat := by
    rw [List.length_append,given.count,moved]
  constructor
  · rw [stamps_snoc,here,length]
  · rw [stamps_snoc,here,reports_snoc]
    refine all.later _ fun index below => ends_requests _ index ?_
    rw [Nat.zero_add,length] at below
    exact Nat.lt_of_lt_of_le below ordered

theorem Given.still (given : Given idx log before) (attached : Attached idx log before done queued)
    (silent : stampsBy idx (event,effect) = [])
    (tail : (after.perConnTxTimestamps idx).tail = (before.perConnTxTimestamps idx).tail) :
    Given idx (log ++ [(event,effect)]) after := by
  refine given.moves (moves_none tail) silent ?_
  rw [tail]
  exact attached.tracked.slots.ordered

theorem Given.send (given : Given idx log before) (attached : Attached idx log before done queued)
    {attempt : SendAttempt conns} (stepped : (symmetricNicTcpMain proto).step before (.send attempt) = .next (after,effect)) :
    Given idx (log ++ [(.send attempt,effect)]) after := by
  refine given.still attached rfl ?_
  have taken : (if !attempt.again && before.availReqs = 0 then .next (before,{calls := []})
      else sendPath (fun ring => (addPendingTxTimestamp ring (UInt32.ofNat attempt.bytesToSend),[])) before attempt) =
      Outcome.next (after,effect) := stepped
  split at taken
  next =>
    cases taken
    rfl
  next =>
    obtain ⟨rfl,-⟩ | ⟨chosen,-,-,-,rfl,-⟩ := sendPath_cases taken
    · rfl
    · by_cases same : idx = chosen
      · subst same
        dsimp only [creditSend]
        rw [Function.update_self]
        rfl
      · dsimp only [creditSend]
        rw [Function.update_of_ne same]

theorem Given.errorQueue (given : Given idx log before) (attached : Attached idx log before done queued)
    (ordered : (after.perConnTxTimestamps idx).tail.toNat ≤ (requests idx log).length)
    (stepped : (symmetricNicTcpMain proto).step before (.epollErr chosen) = .next (after,effect)) :
    Given idx (log ++ [(.epollErr chosen,effect)]) after := by
  obtain ⟨⟨final,calls⟩,read,returned⟩ := Outcome.bind_next stepped
  cases returned
  by_cases same : chosen = idx
  · subst same
    have moves := readTxReport_moves attached.tracked attached.queue attached.bounded read
    rw [← attached.split] at moves
    exact given.moves moves (if_pos rfl) ordered
  · obtain ⟨-,others⟩ := readTxReport_frame read
    obtain ⟨rings,-⟩ := others idx (Ne.symm same)
    exact given.still attached (if_neg same) (by rw [rings])

theorem Given.reply (given : Given idx log before) (attached : Attached idx log before done queued) {recv : Recv}
    {rx : Timespec} (ordered : (after.perConnTxTimestamps idx).tail.toNat ≤ (requests idx log).length)
    (stepped : (symmetricNicTcpMain proto).step before (.epollIn chosen recv rx) = .next (after,effect)) :
    Given idx (log ++ [(.epollIn chosen recv rx,effect)]) after := by
  obtain ⟨received,-,handled⟩ := Outcome.bind_next stepped
  cases received with
  | closed conn =>
    cases handled
    refine given.still attached ?_ rfl
    rw [stampsBy]
    split
    next => rfl
    next => rfl
  | responses conn readRes =>
    obtain ⟨⟨final,tx,calls⟩,matched,handled⟩ := Outcome.bind_next handled
    cases handled
    by_cases same : chosen = idx
    · subst same
      have moves := @matchNicTimestamp_moves _ _ _ _ _ (creditResponses before chosen conn readRes) _ _ _ _ _
        attached.tracked attached.queue attached.bounded matched
      rw [← attached.split] at moves
      refine given.moves moves ?_ ordered
      rw [stampsBy,if_pos rfl]
      dsimp only
      rw [times_append,times_append,times_nicSample,List.append_nil]
      exact List.append_nil _
    · obtain ⟨-,others⟩ := matchNicTimestamp_frame matched
      obtain ⟨rings,-⟩ := others idx (Ne.symm same)
      exact given.still attached (if_neg same) (by rw [rings]; rfl)

end Steps

theorem given_run {proto : ApplicationProtocol} {idx : Fin conns} {now : Int} {log : List (Event conns × Effect conns)}
    {thread : Thread conns}
    (run : (symmetricNicTcpMain proto).Run (NicRoom proto idx) (throughputOpenConnections conns now) log thread) :
    Given idx log thread := by
  induction run with
  | nil => exact ⟨rfl,.none⟩
  | @snoc log before after event effect past allowed stepped given =>
    obtain ⟨done,queued,attached⟩ := attached_run past
    obtain ⟨_,_,attached'⟩ := attached_run (.snoc past allowed stepped)
    have ordered := attached'.tracked.slots.ordered
    cases event with
    | idle now =>
      cases stepped
      exact given.still attached rfl rfl
    | send attempt => exact given.send attached stepped
    | epollIn chosen recv rx =>
      have same : requests idx (log ++ [(.epollIn chosen recv rx,effect)]) = requests idx log := by
        rw [requests_snoc]
        exact List.append_nil _
      rw [same] at ordered
      exact given.reply attached ordered stepped
    | epollErr chosen =>
      have same : requests idx (log ++ [(.epollErr chosen,effect)]) = requests idx log := by
        rw [requests_snoc]
        exact List.append_nil _
      rw [same] at ordered
      exact given.errorQueue attached ordered stepped
    | epollHup chosen => cases stepped
    | epollOther chosen =>
      cases stepped
      exact given.still attached rfl rfl
    | txReport chosen cmsgs =>
      cases stepped
      exact given.still attached rfl rfl

/-- All reports are read, and they are about every request. -/
def AllRead (idx : Fin conns) (log : List (Event conns × Effect conns)) (thread : Thread conns) : Prop :=
  thread.errQueue idx = [] ∧
    ∀ index, index < (requests idx log).length → ∃ report ∈ reports idx log, ends (requests idx log) index ≤ endOf report

/-- Each request has its own offset in its slot until a report about it is read, and in the end
each has got exactly one time, that of its segment. -/
structure SlotsKept (idx : Fin conns) (log : List (Event conns × Effect conns)) (thread : Thread conns) : Prop where
  ordered : (thread.perConnTxTimestamps idx).tail.toNat ≤ (thread.perConnTxTimestamps idx).head.toNat
  bound : (thread.perConnTxTimestamps idx).head.toNat ≤ (thread.perConnTxTimestamps idx).tail.toNat + maxPendingReqs
  kept : ∀ index, index < (requests idx log).length → Outstanding idx log thread index →
    ((thread.perConnTxTimestamps idx).read index).optid.toNat = ends (requests idx log) index
  once : AllRead idx log thread → (stamps idx log).length = (requests idx log).length
  own : Stamped (ends (requests idx log)) (reports idx log) 0 (stamps idx log)

theorem slots_kept (proto : ApplicationProtocol) (idx : Fin conns) (now : Int) (log : List (Event conns × Effect conns))
    (thread : Thread conns)
    (run : (symmetricNicTcpMain proto).Run (HeldBack proto idx) (throughputOpenConnections conns now) log thread) :
    SlotsKept idx log thread := by
  have roomy := room_run run
  obtain ⟨done,queued,attached⟩ := attached_run roomy
  have given := given_run roomy
  have slots := attached.tracked.slots
  constructor
  · rw [slots.head]
    exact slots.ordered
  · rw [slots.head]
    exact slots.room
  · intro index inside waits
    exact slots.marks index ((outstanding_iff attached inside).mp waits) inside
  · rintro ⟨empty,covered⟩
    have nothing : queued = [] := by
      have queue := attached.queue
      rw [empty] at queue
      exact List.map_eq_nil_iff.mp queue.symm
    rw [given.count]
    refine Nat.le_antisymm slots.ordered (Nat.not_lt.mp fun waiting => ?_)
    -- a request above the tail is covered by no report that was read, and all were
    obtain ⟨report,member,reaches⟩ := covered _ waiting
    rw [attached.split,nothing,List.append_nil] at member
    exact absurd (attached.tracked.stream.boundary.beyond _ (Nat.le_refl _) waiting report member) (Nat.not_lt.mpr reaches)
  · exact given.stamped

instance decidableHeldBack (proto : ApplicationProtocol) (idx : Fin conns) (log : List (Event conns × Effect conns))
    (thread : Thread conns) : (event : Event conns) → Decidable (HeldBack proto idx log thread event)
  | .send _ => inferInstanceAs (Decidable (_ ∧ (_ → _)))
  | .epollIn _ _ _ | .txReport _ _ | .idle _ | .epollErr _ | .epollHup _ | .epollOther _ =>
    inferInstanceAs (Decidable (_ ∧ True))

/-- Two requests in one segment, whose report is read. -/
def coalesced : List (Event 1) := [sendOne,sendOne,report 1 1,.epollErr ⟨0,Nat.one_pos⟩]

theorem slots_kept_coalesced : ∃ log thread,
    (symmetricNicTcpMain (.echo 1)).Run (HeldBack (.echo 1) 0) (throughputOpenConnections 1 0) log thread ∧
      stamps 0 log = [⟨1,0⟩,⟨1,0⟩] ∧ SlotsKept 0 log thread := by
  obtain ⟨log,thread,run,given⟩ := @Machine.run_of_follow _ _ _ (symmetricNicTcpMain (.echo 1)) (HeldBack (.echo 1) 0)
    (throughputOpenConnections 1 0) (fun log thread event => decide (HeldBack (.echo 1) 0 log thread event))
    (fun _ _ _ => of_decide_eq_true) coalesced (fun ended => decide (stamps 0 ended.1 = [⟨1,0⟩,⟨1,0⟩])) (by decide +kernel)
  exact ⟨log,thread,run,of_decide_eq_true given,slots_kept (.echo 1) 0 0 log thread run⟩

/-- The seventeenth request takes the slot of the first, whose report is still outstanding. -/
def answeredFirst : List (Event 1) := List.replicate 16 sendOne ++ [answersOf 16,sendOne]

def reusesSlot (log : List (Event 1 × Effect 1)) (thread : Thread 1) : Bool :=
  decide (Outstanding ⟨0,Nat.one_pos⟩ log thread 0) &&
    ((thread.perConnTxTimestamps ⟨0,Nat.one_pos⟩).read 0).optid.toNat != ends (requests ⟨0,Nat.one_pos⟩ log) 0 &&
    decide ((thread.perConnTxTimestamps ⟨0,Nat.one_pos⟩).tail.toNat + maxPendingReqs <
      (thread.perConnTxTimestamps ⟨0,Nat.one_pos⟩).head.toNat)

theorem waiting_slot_reused : ∃ log thread,
    (symmetricNicTcpMain (.echo 1)).Run (Nic (.echo 1) 0) (throughputOpenConnections 1 0) log thread ∧
      ¬(thread.perConnTxTimestamps 0).head.toNat ≤ (thread.perConnTxTimestamps 0).tail.toNat + maxPendingReqs ∧
      Outstanding 0 log thread 0 ∧ ((thread.perConnTxTimestamps 0).read 0).optid.toNat ≠ ends (requests 0 log) 0 := by
  obtain ⟨log,thread,run,reused⟩ := @Machine.run_of_follow _ _ _ (symmetricNicTcpMain (.echo 1)) (Nic (.echo 1) 0)
    (throughputOpenConnections 1 0) (fun log thread event => decide (Nic (.echo 1) 0 log thread event))
    (fun _ _ _ => of_decide_eq_true) answeredFirst (fun ended => reusesSlot ended.1 ended.2) (by decide +kernel)
  rw [reusesSlot,Bool.and_eq_true,Bool.and_eq_true] at reused
  obtain ⟨⟨waits,other⟩,beyond⟩ := reused
  exact ⟨log,thread,run,Nat.not_le.mpr (of_decide_eq_true beyond),of_decide_eq_true waits,bne_iff_ne.mp other⟩

end Lancet.NicRingBound
