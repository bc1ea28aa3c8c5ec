import Lancet.Agent
import Mathlib.Data.List.Range

/-! Which targets the connections of an agent reach (agent.c, tp_tcp.c): the connections are
divided among the threads, and each thread goes through the targets from the first on. -/
namespace Lancet.Targets
open Agent

structure Destinations where
  connCount : Int
  targetCount : Int
  deriving DecidableEq, Repr

def perThreadConn (config : AgentConfig) (dests : Destinations) : Int := dests.connCount.tdiv config.threadCount

def destIdx (dests : Destinations) (i : Nat) : Int := (i : Int).tmod dests.targetCount

/-- The targets `throughput_open_connections` connects to, in its order. -/
def openedTargets (config : AgentConfig) (dests : Destinations) : List Int :=
  (List.range (perThreadConn config dests).toNat).map (destIdx dests)

/-- What all the threads connect to. -/
def agentTargets (config : AgentConfig) (dests : Destinations) : List Int :=
  (List.range config.threadCount.toNat).flatMap (fun _ => openedTargets config dests)

theorem openedTargets_mem {config : AgentConfig} {dests : Destinations} {target : Int} (loaded : 1 ≤ dests.targetCount) :
    target ∈ openedTargets config dests ↔ 0 ≤ target ∧ target < dests.targetCount ∧ target < perThreadConn config dests := by
  have dest : ∀ i : Nat, destIdx dests i = (i : Int) % dests.targetCount :=
    fun i => Int.tmod_eq_emod_of_nonneg (Int.natCast_nonneg i)
  rw [openedTargets,List.mem_map]
  constructor
  · rintro ⟨i,inside,rfl⟩
    rw [List.mem_range] at inside
    rw [dest]
    have below := Int.emod_lt_of_pos (i : Int) (by omega : 0 < dests.targetCount)
    have above := Int.emod_nonneg (i : Int) (by omega : dests.targetCount ≠ 0)
    obtain ⟨count,same⟩ := Int.eq_ofNat_of_zero_le (by omega : 0 ≤ dests.targetCount)
    have least : (i : Int) % dests.targetCount ≤ i := by
      rw [same]
      exact_mod_cast Nat.mod_le i count
    exact ⟨above,below,by omega⟩
  · rintro ⟨nonneg,below,opened⟩
    refine ⟨target.toNat,List.mem_range.mpr (by omega),?_⟩
    rw [dest,Int.toNat_of_nonneg nonneg,Int.emod_eq_of_lt nonneg below]

theorem agentTargets_mem {config : AgentConfig} {dests : Destinations} {target : Int} (threads : 1 ≤ config.threadCount) :
    target ∈ agentTargets config dests ↔ target ∈ openedTargets config dests := by
  rw [agentTargets,List.mem_flatMap]
  constructor
  · rintro ⟨_,-,opened⟩
    exact opened
  · exact fun opened => ⟨0,List.mem_range.mpr (by omega),opened⟩

/-- Every target is reached if and only if one thread's connections suffice for all of them. -/
theorem all_targets_loaded_iff (config : AgentConfig) (dests : Destinations) (threads : 1 ≤ config.threadCount)
    (targets : 1 ≤ dests.targetCount) (enough : dests.targetCount ≤ dests.connCount) :
    (∀ target, 0 ≤ target → target < dests.targetCount → target ∈ agentTargets config dests) ↔
      dests.targetCount ≤ dests.connCount / config.threadCount := by
  have divided : perThreadConn config dests = dests.connCount / config.threadCount :=
    Int.tdiv_eq_ediv_of_nonneg (by omega)
  rw [← divided]
  constructor
  · intro all
    have last := all (dests.targetCount - 1) (by omega) (by omega)
    rw [agentTargets_mem threads,openedTargets_mem targets] at last
    omega
  · intro share target nonneg below
    rw [agentTargets_mem threads,openedTargets_mem targets]
    exact ⟨nonneg,below,by omega⟩

/-- Two threads with two connections each reach two of three targets. -/
theorem third_target_idle : 2 ∉ agentTargets ⟨2,.symmetricAgent⟩ ⟨4,3⟩ := by decide

theorem all_targets_loaded_two_threads : 2 ∈ agentTargets ⟨2,.symmetricAgent⟩ ⟨6,3⟩ :=
  (all_targets_loaded_iff ⟨2,.symmetricAgent⟩ ⟨6,3⟩ (by decide) (by decide) (by decide)).mpr (by decide) 2 (by decide) (by decide)

end Lancet.Targets
