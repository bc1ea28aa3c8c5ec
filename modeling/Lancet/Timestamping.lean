import Lancet.Foundation.Machine
import Lancet.Foundation.Window
import Mathlib.Data.Vector.Basic

/-! Timestamps and the per-connection ring of requests that wait for one
(timestamping.c, timestamping.h). Counters are the 32-bit counters of the source
and wrap; `pending` is indexed by a counter modulo the ring size. -/
namespace Lancet.Timestamping
open Foundation

structure Timespec where
  tvSec : Int
  tvNsec : Int
  deriving DecidableEq, Repr

namespace Timespec

def zero : Timespec := ⟨0,0⟩

def nanos (time : Timespec) : Int := time.tvSec * 1000000000 + time.tvNsec

def Normal (time : Timespec) : Prop := 0 ≤ time.tvNsec ∧ time.tvNsec < 1000000000

instance (time : Timespec) : Decidable time.Normal := inferInstanceAs (Decidable (_ ∧ _))

end Timespec

def maxPendingReqs : Nat := 16

structure TimestampInfo where
  time : Timespec
  optid : UInt32
  deriving DecidableEq, Repr

structure PendingTxTimestamps where
  txByteCounter : UInt32
  head : UInt32
  tail : UInt32
  consumed : UInt32
  pending : Vector TimestampInfo maxPendingReqs
  deriving DecidableEq, Repr

def PendingTxTimestamps.empty : PendingTxTimestamps :=
  ⟨0,0,0,0,Vector.replicate maxPendingReqs ⟨Timespec.zero,0⟩⟩

def slot (index : Nat) : Fin maxPendingReqs := ⟨index % maxPendingReqs,Nat.mod_lt _ (by decide)⟩

namespace PendingTxTimestamps

def read (ring : PendingTxTimestamps) (index : Nat) : TimestampInfo := ring.pending[slot index]

def entry (ring : PendingTxTimestamps) (counter : UInt32) : TimestampInfo := ring.read counter.toNat

def write (ring : PendingTxTimestamps) (counter : UInt32) (info : TimestampInfo) : PendingTxTimestamps :=
  {ring with pending := ring.pending.set (slot counter.toNat) info}

@[simp] theorem write_head (ring : PendingTxTimestamps) (counter : UInt32) (info : TimestampInfo) :
    (ring.write counter info).head = ring.head := rfl

@[simp] theorem write_tail (ring : PendingTxTimestamps) (counter : UInt32) (info : TimestampInfo) :
    (ring.write counter info).tail = ring.tail := rfl

@[simp] theorem write_consumed (ring : PendingTxTimestamps) (counter : UInt32) (info : TimestampInfo) :
    (ring.write counter info).consumed = ring.consumed := rfl

@[simp] theorem write_txByteCounter (ring : PendingTxTimestamps) (counter : UInt32) (info : TimestampInfo) :
    (ring.write counter info).txByteCounter = ring.txByteCounter := rfl

theorem write_overwrites (ring : PendingTxTimestamps) (counter : UInt32) (info : TimestampInfo) :
    Overwrites maxPendingReqs ring.read (ring.write counter info).read counter.toNat info := by
  intro other
  simp only [read,write,slot,Fin.getElem_fin,Vector.getElem_set]

end PendingTxTimestamps

inductive Cmsg where
  -- the raw hardware time `ts[2]`
  | timestamping (hardware : Timespec)
  -- whether `ENOMSG` of the timestamping origin, and `ee_data`
  | ipRecverr (timestamp : Bool) (eeData : UInt32)
  | other
  deriving DecidableEq, Repr

structure Extraction where
  found : Int
  dest : TimestampInfo
  receivedOpid : UInt32
  deriving DecidableEq, Repr

def extractOne (state : Extraction) : Cmsg → Outcome Extraction
  | .timestamping hardware =>
    if hardware.tvSec ≠ 0 then do
      Outcome.assert (state.found = -1)
      return {state with dest.time := hardware, found := 1}
    else return state
  | .ipRecverr true eeData =>
    if state.dest.optid < eeData + 1 then return {state with found := 0, receivedOpid := eeData}
    else if eeData + 1 < state.dest.optid then return {state with found := -1}
    else return {state with found := 1}
  | .ipRecverr false _ => return state
  | .other => return state

def extractTimestamps (cmsgs : List Cmsg) (dest : TimestampInfo) (receivedOpid : UInt32) : Outcome Extraction :=
  cmsgs.foldlM extractOne ⟨-1,dest,receivedOpid⟩

/-- The loop over the requests coalesced with the first one; `head - tail` bounds
its passes. -/
def completeCovered (time : Timespec) (receivedOpid : UInt32) :
    Nat → PendingTxTimestamps → List Timespec → PendingTxTimestamps × List Timespec
  | 0, ring, recorded => (ring,recorded)
  | passes + 1, ring, recorded =>
    if (ring.entry ring.tail).optid ≤ receivedOpid + 1 ∧ ring.tail < ring.head then
      let ring' := ring.write ring.tail {ring.entry ring.tail with time := time}
      completeCovered time receivedOpid passes {ring' with tail := ring.tail + 1} (recorded ++ [time])
    else (ring,recorded)

structure TxTimestamp where
  ring : PendingTxTimestamps
  receivedOpid : UInt32
  -- the times handed to `add_tx_timestamp`
  recorded : List Timespec
  found : Int
  deriving DecidableEq, Repr

def getTxTimestamp (message : Option (List Cmsg)) (ring : PendingTxTimestamps) (receivedOpid : UInt32) :
    Outcome TxTimestamp :=
  match message with
  | none => return ⟨ring,receivedOpid,[],0⟩
  | some cmsgs => do
    let extracted ← extractTimestamps cmsgs (ring.entry ring.tail) receivedOpid
    let ring' := ring.write ring.tail extracted.dest
    if extracted.found = -1 then
      return ⟨ring',extracted.receivedOpid,[],0⟩
    else
      let time := extracted.dest.time
      let advanced := {ring' with tail := ring.tail + 1}
      if extracted.found = 1 then
        return ⟨advanced,extracted.receivedOpid,[time],1⟩
      else
        let (final,recorded) := completeCovered time extracted.receivedOpid
          (advanced.head.toNat - advanced.tail.toNat) advanced [time]
        return ⟨final,extracted.receivedOpid,recorded,1⟩

def addPendingTxTimestamp (ring : PendingTxTimestamps) (bytes : UInt32) : PendingTxTimestamps :=
  let counter := ring.txByteCounter + bytes
  let ring' := ring.write ring.head {ring.entry ring.head with optid := counter}
  {ring' with txByteCounter := counter, head := ring.head + 1}

def popPendingTxTimestamps (ring : PendingTxTimestamps) : Outcome (PendingTxTimestamps × Option TimestampInfo) := do
  Outcome.assert (ring.consumed ≤ ring.head)
  if ring.consumed < ring.tail then
    return ({ring with consumed := ring.consumed + 1},some (ring.entry ring.consumed))
  else return (ring,none)

theorem popPendingTxTimestamps_some {ring : PendingTxTimestamps} (ordered : ring.consumed ≤ ring.head)
    (known : ring.consumed < ring.tail) :
    popPendingTxTimestamps ring = .next ({ring with consumed := ring.consumed + 1},some (ring.entry ring.consumed)) := by
  simp only [popPendingTxTimestamps,decide_eq_true ordered,Outcome.assert_true,Outcome.next_bind,known,if_true]
  rfl

theorem popPendingTxTimestamps_none {ring : PendingTxTimestamps} (ordered : ring.consumed ≤ ring.head)
    (unknown : ¬ ring.consumed < ring.tail) : popPendingTxTimestamps ring = .next (ring,none) := by
  simp only [popPendingTxTimestamps,decide_eq_true ordered,Outcome.assert_true,Outcome.next_bind,unknown,if_false]
  rfl

def pushCompleteTxTimestamp (ring : PendingTxTimestamps) (toAdd : Timespec) : PendingTxTimestamps :=
  let ring' := ring.write ring.tail {ring.entry ring.tail with time := toAdd}
  {ring' with head := ring.head + 1, tail := ring.tail + 1}

def blindSkipTxTimestamps (ring : PendingTxTimestamps) (toSkip : Int) : PendingTxTimestamps :=
  if 0 < toSkip then {ring with consumed := ring.consumed + UInt32.ofInt toSkip} else ring

def timespecDiff (a b : Option Timespec) : Option Timespec :=
  match a, b with
  | some a, some b =>
    -- `none` stands for the result -1
    if a.tvSec = 0 ∨ b.tvSec = 0 then none
    else if a.tvNsec < b.tvNsec then some ⟨a.tvSec - 1 - b.tvSec,1000000000 - (b.tvNsec - a.tvNsec)⟩
    else some ⟨a.tvSec - b.tvSec,a.tvNsec - b.tvNsec⟩
  | _, _ => none

theorem timespecDiff_unset {rx tx : Timespec} (unset : rx.tvSec = 0 ∨ tx.tvSec = 0) : timespecDiff (some rx) (some tx) = none := by
  rw [timespecDiff,if_pos unset]

theorem timespecDiff_exact {rx tx : Timespec} (normalRx : rx.Normal) (normalTx : tx.Normal) (setRx : rx.tvSec ≠ 0)
    (setTx : tx.tvSec ≠ 0) : ∃ diff, timespecDiff (some rx) (some tx) = some diff ∧ diff.Normal ∧
      diff.nanos = rx.nanos - tx.nanos := by
  obtain ⟨low,high⟩ := normalRx
  obtain ⟨low',high'⟩ := normalTx
  have stamped : ¬(rx.tvSec = 0 ∨ tx.tvSec = 0) := by simp [setRx,setTx]
  simp only [timespecDiff,if_neg stamped]
  split
  next borrow =>
    refine ⟨_,rfl,?_,?_⟩
    · simp only [Timespec.Normal]
      omega
    · simp only [Timespec.nanos]
      omega
  next whole =>
    refine ⟨_,rfl,?_,?_⟩
    · simp only [Timespec.Normal]
      omega
    · simp only [Timespec.nanos]
      omega

end Lancet.Timestamping
