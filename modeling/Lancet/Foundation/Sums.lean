import Mathlib

/-! Sums of lists of counters, whether they wrap or not. -/
namespace Foundation

theorem sum_set_add {M : Type} [Add M] [Zero M] [Std.Associative (fun a b : M => a + b)] [Std.Commutative (fun a b : M => a + b)]
    {values : List M} {index : Nat} {value : M} (held : values[index]? = some value) (extra : M) :
    (values.set index (value + extra)).sum = values.sum + extra := by
  induction values generalizing index with
  | nil => cases held
  | cons first values ih =>
    cases index with
    | zero =>
      cases held
      rw [List.set_cons_zero,List.sum_cons,List.sum_cons]
      ac_rfl
    | succ index =>
      rw [List.getElem?_cons_succ] at held
      rw [List.set_cons_succ,List.sum_cons,List.sum_cons,ih held]
      ac_rfl

theorem sum_word (values : List UInt64) : values.sum.toNat = (values.map UInt64.toNat).sum % 2^64 := by
  induction values with
  | nil => rfl
  | cons value rest ih =>
    rw [List.sum_cons,UInt64.toNat_add,ih,List.map_cons,List.sum_cons]
    omega

theorem sum_apart {ι : Type} [Fintype ι] [DecidableEq ι] (f g : ι → Nat) (index : ι)
    (same : ∀ other, other ≠ index → g other = f other) : ∑ other, g other + f index = ∑ other, f other + g index := by
  have others : ∑ other ∈ Finset.univ.erase index, g other = ∑ other ∈ Finset.univ.erase index, f other :=
    Finset.sum_congr rfl fun other member => same other (Finset.ne_of_mem_erase member)
  have all := Finset.add_sum_erase Finset.univ f (Finset.mem_univ index)
  have all' := Finset.add_sum_erase Finset.univ g (Finset.mem_univ index)
  omega

end Foundation
