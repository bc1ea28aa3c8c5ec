import Lancet.RandGen

/-! The agent configuration the other modules consult and the load that its generators are set
to (agent.h, agent.c, stats.c). -/
namespace Lancet.Agent
open Foundation RandGen

inductive AgentType where
  | throughputAgent
  | latencyAgent
  | symmetricNicTimestampAgent
  | symmetricAgent
  deriving DecidableEq, Repr

def maxThreads : Nat := 16

structure AgentConfig where
  threadCount : Int
  atype : AgentType
  deriving DecidableEq, Repr

section Load
variable {F : Type} [CMath F]
open CDouble

def setReferenceLoad (referenceIaGen : RandGen F) (load : UInt32) : Outcome (RandGen F) :=
  setAvg referenceIaGen (ofInt 1000000 / ofInt load.toNat)

/-- The generators of the threads and of the reference after `set_load`. -/
def setLoad (threadCount : Int) (idist referenceIaGen : RandGen F) (load : UInt32) : Outcome (RandGen F × RandGen F) := do
  let referenceIaGen ← setReferenceLoad referenceIaGen load
  let perThreadLoad := ofInt load.toNat / ofInt threadCount
  let idist ← setAvg idist (ofInt 1000000 / perThreadLoad)
  return (idist,referenceIaGen)

end Load
end Lancet.Agent
