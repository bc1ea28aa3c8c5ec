import Lancet.Stats

/-! How many responses a received buffer holds, per application protocol
(app_proto.c). Every parser looks at the length only. -/
namespace Lancet.AppProto
open Foundation Stats

inductive ApplicationProtocol where
  | echo (messageLen : Nat)
  | synthetic
  | asciiMemcached
  | asciiMemcachedSvc
  deriving DecidableEq, Repr

def responseSize : Nat := 40
def sizeofLong : Nat := 8

structure Consumed where
  bytes : Nat
  reqs : Nat
  deriving DecidableEq, Repr

def Consumed.toPair (consumed : Consumed) : ByteReqPair := ⟨UInt64.ofNat consumed.bytes,UInt64.ofNat consumed.reqs⟩

def echoConsumeResponse (messageLen len : Nat) : Outcome Consumed :=
  -- the division traps
  if messageLen = 0 then .fault
  else .next ⟨len / messageLen * messageLen,len / messageLen⟩

def syntheticConsumeResponse (len : Nat) : Outcome Consumed :=
  .next ⟨len / sizeofLong * sizeofLong,len / sizeofLong⟩

def asciiMemLoop (len : Nat) : Nat → Consumed → Consumed
  | 0, res => res
  | passes + 1, res =>
    if res.bytes < len then
      let res' : Consumed := ⟨res.bytes + responseSize,res.reqs + 1⟩
      if len < res'.bytes + responseSize then res' else asciiMemLoop len passes res'
    else res

def asciiMemConsumeResponse (len : Nat) : Outcome Consumed := do
  Outcome.assert (responseSize ≤ len)
  return asciiMemLoop len len ⟨0,0⟩

def consumeResponse (proto : ApplicationProtocol) (len : Nat) : Outcome Consumed :=
  match proto with
  | .echo messageLen => echoConsumeResponse messageLen len
  | .synthetic => syntheticConsumeResponse len
  | .asciiMemcached => asciiMemConsumeResponse len
  | .asciiMemcachedSvc => asciiMemConsumeResponse len

def ApplicationProtocol.size : ApplicationProtocol → Nat
  | .echo messageLen => messageLen
  | .synthetic => sizeofLong
  | .asciiMemcached => responseSize
  | .asciiMemcachedSvc => responseSize

private theorem asciiMemLoop_count (len passes : Nat) (res : Consumed)
    (aligned : res.bytes = responseSize * res.reqs) (inside : res.bytes + responseSize ≤ len)
    (enough : len / responseSize ≤ res.reqs + passes) :
    asciiMemLoop len passes res = ⟨responseSize * (len / responseSize),len / responseSize⟩ := by
  induction passes generalizing res with
  | zero => unfold responseSize at *; omega
  | succ passes ih =>
    have below : res.bytes < len := by unfold responseSize at inside; omega
    simp only [asciiMemLoop,below,if_true]
    split
    next last =>
      have count : res.reqs + 1 = len / responseSize := by unfold responseSize at *; omega
      rw [← count,aligned,Nat.mul_succ]
    next more =>
      have room : res.bytes + responseSize + responseSize ≤ len := Nat.not_lt.mp more
      have left : len / responseSize ≤ res.reqs + 1 + passes := by omega
      exact ih ⟨res.bytes + responseSize,res.reqs + 1⟩ (by rw [aligned,Nat.mul_succ]) room left

theorem asciiMemLoop_eq (len : Nat) (full : responseSize ≤ len) :
    asciiMemLoop len len ⟨0,0⟩ = ⟨responseSize * (len / responseSize),len / responseSize⟩ := by
  apply asciiMemLoop_count
  · rfl
  · simpa using full
  · simpa using Nat.div_le_self len responseSize

theorem consumeResponse_full (proto : ApplicationProtocol) (len : Nat)
    (positive : 0 < proto.size) (full : proto.size ≤ len) :
    consumeResponse proto len = .next ⟨proto.size * (len / proto.size),len / proto.size⟩ := by
  cases proto with
  | echo messageLen =>
    have nonzero : messageLen ≠ 0 := Nat.pos_iff_ne_zero.mp positive
    simp [consumeResponse,echoConsumeResponse,nonzero,ApplicationProtocol.size,Nat.mul_comm]
  | synthetic => simp [consumeResponse,syntheticConsumeResponse,ApplicationProtocol.size,Nat.mul_comm]
  | asciiMemcached =>
    have size : responseSize ≤ len := full
    simp [consumeResponse,asciiMemConsumeResponse,size,asciiMemLoop_eq,ApplicationProtocol.size]
  | asciiMemcachedSvc =>
    have size : responseSize ≤ len := full
    simp [consumeResponse,asciiMemConsumeResponse,size,asciiMemLoop_eq,ApplicationProtocol.size]

theorem consumeResponse_short (proto : ApplicationProtocol) (len : Nat) (short : len < proto.size) :
    consumeResponse proto len = .fault ∨ consumeResponse proto len = .next ⟨0,0⟩ := by
  cases proto with
  | echo messageLen =>
    have size : len < messageLen := short
    have nonzero : messageLen ≠ 0 := by omega
    exact .inr (by simp [consumeResponse,echoConsumeResponse,nonzero,Nat.div_eq_of_lt size])
  | synthetic =>
    have size : len < sizeofLong := short
    exact .inr (by simp [consumeResponse,syntheticConsumeResponse,Nat.div_eq_of_lt size])
  | asciiMemcached =>
    have size : ¬ responseSize ≤ len := Nat.not_le.mpr short
    exact .inl (by simp [consumeResponse,asciiMemConsumeResponse,size])
  | asciiMemcachedSvc =>
    have size : ¬ responseSize ≤ len := Nat.not_le.mpr short
    exact .inl (by simp [consumeResponse,asciiMemConsumeResponse,size])

end Lancet.AppProto
