import Lancet.Foundation.Exactness
import Lancet.TpTcp

/-! The latency of one reply on the two timestamping paths. -/
namespace Lancet.TimestampPaths
open Foundation Timestamping Stats TpTcp

def billion : Int := 1000000000

/-- Less than a second is converted exactly. -/
theorem toLong_nanos {nanos : Int} (low : 0 ≤ nanos) (high : nanos < billion) :
    Binary64.toLong (Float.ofInt nanos + Float.ofInt 0 * 1e9) = nanos := by
  obtain ⟨n,rfl⟩ := Int.eq_ofNat_of_zero_le low
  have small : n < 2^53 := by
    rw [billion] at high
    omega
  rcases Nat.eq_zero_or_pos n with rfl | positive
  · decide +kernel
  · have unpacked : (Float.ofInt 0 * 1e9).toModel.unpack = .zero .positive := rfl
    have denotes := (Binary64.denotes_ofInt_exact positive small).add_zero unpacked
    exact denotes.toLong (by omega)

/-- A reply with these timestamps gives one and the same sample on both paths. -/
structure PathsAgree (tx rx : Timespec) : Prop where
  difference : ∃ diff, timespecDiff (some rx) (some tx) = some diff ∧ diff.Normal ∧ diff.nanos = rx.nanos - tx.nanos
  userspace : userspaceSample rx (some tx) = .next [.latency (rx.nanos - tx.nanos) (some tx)]
  nic : nicSample rx (some tx) = [.latency (rx.nanos - tx.nanos) (some tx)]

/-- They agree on latencies below a second; from there on the userspace path fails its assertion. -/
theorem paths_agree_iff (tx rx : Timespec) (normalTx : tx.Normal) (normalRx : rx.Normal) (setTx : tx.tvSec ≠ 0)
    (setRx : rx.tvSec ≠ 0) (later : tx.nanos ≤ rx.nanos) : PathsAgree tx rx ↔ rx.nanos - tx.nanos < 1000000000 := by
  obtain ⟨diff,found,normal,total⟩ := timespecDiff_exact normalRx normalTx setRx setTx
  have sum := total
  rw [Timespec.nanos] at sum
  obtain ⟨low,high⟩ := normal
  constructor
  · intro agree
    have computed := agree.userspace
    rw [userspaceSample,found] at computed
    obtain ⟨_,passed,-⟩ := Outcome.bind_next computed
    have zero := of_decide_eq_true ((Outcome.assert_next _).mp passed)
    omega
  · intro short
    have zero : diff.tvSec = 0 := by omega
    have nanos : diff.tvNsec = rx.nanos - tx.nanos := by omega
    refine ⟨⟨diff,found,⟨low,high⟩,total⟩,?_,?_⟩
    · rw [userspaceSample,found]
      dsimp only
      rw [decide_eq_true zero,nanos]
      rfl
    · rw [nicSample,found]
      dsimp only
      rw [zero,toLong_nanos low high,nanos]

theorem paths_agree_borrow : PathsAgree ⟨1700000000,999000000⟩ ⟨1700000001,250⟩ :=
  (paths_agree_iff _ _ (by decide) (by decide) (by decide) (by decide) (by decide)).mpr (by decide)

/-- A latency of exactly one second ends the agent on one path and is a sample on the other. -/
theorem one_second_fails : userspaceSample ⟨1700000001,0⟩ (some ⟨1700000000,0⟩) = .fault ∧
    nicSample ⟨1700000001,0⟩ (some ⟨1700000000,0⟩) = [.latency 1000000000 (some ⟨1700000000,0⟩)] := by
  decide +kernel

end Lancet.TimestampPaths
