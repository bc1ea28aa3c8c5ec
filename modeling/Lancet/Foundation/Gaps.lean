import Mathlib.Data.List.Sort
import Mathlib.Data.List.Chain

/-! Lists of items with a key, in which no two neighbours by the key are far apart, and the
neighbours of such a list in ascending order. -/
namespace Foundation

section Gaps
variable {α : Type} (key : α → Int) (limit : Int)

/-- After every item but the last ones comes another within the limit. -/
def Near (items : List α) : Prop :=
  ∀ a ∈ items, ∀ b ∈ items, key a < key b → ∃ c ∈ items, key a < key c ∧ key c < key a + limit

def Follows (a b : α) : Prop := key a ≤ key b ∧ key b < key a + limit

variable {key limit} {items : List α}

theorem Near.perm {items' : List α} (near : Near key limit items) (permuted : items'.Perm items) : Near key limit items' := by
  intro a inA b inB less
  obtain ⟨c,inC,between⟩ := near a (permuted.mem_iff.mp inA) b (permuted.mem_iff.mp inB) less
  exact ⟨c,permuted.mem_iff.mpr inC,between⟩

theorem Near.chain (near : Near key limit items) (positive : 0 < limit) (sorted : items.Pairwise (fun a b => key a ≤ key b)) :
    items.IsChain (Follows key limit) := by
  induction items with
  | nil => simp
  | cons a rest ih =>
    cases rest with
    | nil => simp
    | cons b rest =>
      obtain ⟨least,sorted'⟩ := List.pairwise_cons.mp sorted
      have below := least b (by simp)
      refine List.isChain_cons_cons.mpr ⟨⟨below,?_⟩,ih ?_ sorted'⟩
      · rcases eq_or_lt_of_le below with same | less
        · omega
        · obtain ⟨c,inC,above,close⟩ := near a (by simp) b (by simp) less
          rcases List.mem_cons.mp inC with rfl | later
          · omega
          · rcases List.mem_cons.mp later with rfl | later
            · exact close
            · have between := (List.pairwise_cons.mp sorted').1 c later
              omega
      · intro c inC d inD less
        obtain ⟨e,inE,above,close⟩ := near c (List.mem_cons_of_mem _ inC) d (List.mem_cons_of_mem _ inD) less
        rcases List.mem_cons.mp inE with rfl | later
        · have least' := least c inC
          omega
        · exact ⟨e,later,above,close⟩

theorem chain_sorted (chain : items.IsChain (Follows key limit)) : items.Pairwise (fun a b => key a ≤ key b) := by
  have ordered : items.IsChain (fun a b => key a ≤ key b) := chain.imp fun _ _ follows => follows.1
  have transitive : Trans (fun a b : α => key a ≤ key b) (fun a b => key a ≤ key b) (fun a b => key a ≤ key b) :=
    ⟨fun first second => le_trans first second⟩
  exact ordered.pairwise

theorem near_of_chain (chain : items.IsChain (Follows key limit)) : Near key limit items := by
  induction items with
  | nil => simp [Near]
  | cons first rest ih =>
    intro a inA b inB less
    have least := (List.pairwise_cons.mp (chain_sorted chain)).1
    cases rest with
    | nil =>
      rw [List.mem_singleton] at inA inB
      rw [inA,inB] at less
      omega
    | cons second rest =>
      obtain ⟨⟨below,close⟩,chain'⟩ := List.isChain_cons_cons.mp chain
      rcases List.mem_cons.mp inA with rfl | laterA
      · rcases List.mem_cons.mp inB with rfl | laterB
        · omega
        · rcases eq_or_lt_of_le below with same | strict
          · -- the second item stands for the first
            obtain ⟨c,inC,above,near⟩ := ih chain' second (by simp) b laterB (by omega)
            exact ⟨c,List.mem_cons_of_mem _ inC,by omega,by omega⟩
          · exact ⟨second,by simp,strict,close⟩
      · rcases List.mem_cons.mp inB with rfl | laterB
        · have least' := least a laterA
          omega
        · obtain ⟨c,inC,between⟩ := ih chain' a laterA b laterB less
          exact ⟨c,List.mem_cons_of_mem _ inC,between⟩

theorem chain_span {first : α} {rest : List α} (chain : (first :: rest).IsChain (Follows key limit)) :
    ∀ a ∈ first :: rest, key a ≤ key first + rest.length * limit := by
  induction rest generalizing first with
  | nil => simp
  | cons second rest ih =>
    obtain ⟨⟨below,close⟩,chain'⟩ := List.isChain_cons_cons.mp chain
    intro a inA
    have positive : (0 : Int) ≤ rest.length * limit := Int.mul_nonneg (Int.natCast_nonneg _) (by omega)
    rw [List.length_cons,Int.natCast_succ,Int.add_mul,Int.one_mul]
    rcases List.mem_cons.mp inA with rfl | later
    · omega
    · have within := ih chain' a later
      omega

/-- So the items cannot be spread wide. -/
theorem Near.span (near : Near key limit items) (positive : 0 < limit) {a b : α} (inA : a ∈ items) (inB : b ∈ items) :
    key b - key a ≤ items.length * limit := by
  have total : Std.Total (fun a b : α => key a ≤ key b) := ⟨fun a b => le_total (key a) (key b)⟩
  have transitive : IsTrans α (fun a b => key a ≤ key b) := ⟨fun _ _ _ first second => le_trans first second⟩
  have permuted := List.perm_insertionSort (fun a b : α => key a ≤ key b) items
  have sorted := List.pairwise_insertionSort (fun a b : α => key a ≤ key b) items
  have chain := (near.perm permuted).chain positive sorted
  rw [← permuted.mem_iff] at inA inB
  rw [← permuted.length_eq]
  generalize items.insertionSort (fun a b => key a ≤ key b) = ordered at inA inB sorted chain
  cases ordered with
  | nil => simp at inA
  | cons first rest =>
    have top := chain_span chain b inB
    have least : key first ≤ key a := by
      rcases List.mem_cons.mp inA with rfl | later
      · exact le_refl _
      · exact (List.pairwise_cons.mp sorted).1 a later
    rw [List.length_cons,Int.natCast_succ,Int.add_mul,Int.one_mul]
    omega

end Gaps

section Neighbours
variable {α : Type} {key : α → Int} {items : List α}

def neighbours (items : List α) : List (α × α) := items.zip items.tail

theorem neighbours_members {pair : α × α} (inside : pair ∈ neighbours items) : pair.1 ∈ items ∧ pair.2 ∈ items :=
  ⟨(List.of_mem_zip inside).1,List.mem_of_mem_tail (List.of_mem_zip inside).2⟩

theorem neighbours_cons (a b : α) (rest : List α) : neighbours (a :: b :: rest) = (a,b) :: neighbours (b :: rest) := rfl

theorem neighbours_ascend (sorted : items.Pairwise (fun a b => key a < key b)) {pair : α × α} (inside : pair ∈ neighbours items) :
    key pair.1 < key pair.2 := by
  induction items with
  | nil => cases inside
  | cons a rest ih =>
    cases rest with
    | nil => cases inside
    | cons b rest =>
      obtain ⟨least,sorted'⟩ := List.pairwise_cons.mp sorted
      rw [neighbours_cons] at inside
      rcases List.mem_cons.mp inside with rfl | later
      · exact least b (by simp)
      · exact ih sorted' later

theorem nothing_between (sorted : items.Pairwise (fun a b => key a < key b)) {pair : α × α} (inside : pair ∈ neighbours items)
    {c : α} (inC : c ∈ items) : ¬(key pair.1 < key c ∧ key c < key pair.2) := by
  induction items with
  | nil => cases inside
  | cons a rest ih =>
    cases rest with
    | nil => cases inside
    | cons b rest =>
      obtain ⟨least,sorted'⟩ := List.pairwise_cons.mp sorted
      rw [neighbours_cons] at inside
      rcases List.mem_cons.mp inside with rfl | later
      · rcases List.mem_cons.mp inC with rfl | inRest
        · simp
        · rcases List.mem_cons.mp inRest with rfl | inRest
          · simp
          · have above := (List.pairwise_cons.mp sorted').1 c inRest
            dsimp only
            omega
      · rcases List.mem_cons.mp inC with rfl | inRest
        · have above := least pair.1 (neighbours_members later).1
          omega
        · exact ih sorted' later inRest

/-- A key that no item has, between two of the items, lies between two neighbours. -/
theorem exists_neighbours (sorted : items.Pairwise (fun a b => key a < key b)) {low high : α} {value : Int} (inLow : low ∈ items)
    (inHigh : high ∈ items) (above : key low < value) (below : value < key high) (absent : ∀ a ∈ items, key a ≠ value) :
    ∃ pair ∈ neighbours items, key pair.1 < value ∧ value < key pair.2 := by
  induction items generalizing low with
  | nil => cases inLow
  | cons a rest ih =>
    obtain ⟨least,sorted'⟩ := List.pairwise_cons.mp sorted
    have first : key a < value := by
      rcases List.mem_cons.mp inLow with rfl | later
      · exact above
      · exact (least low later).trans above
    cases rest with
    | nil =>
      rw [List.mem_singleton] at inHigh
      rw [inHigh] at below
      omega
    | cons b rest =>
      rw [neighbours_cons]
      rcases lt_or_gt_of_ne (absent b (by simp)) with lower | higher
      · have inHigh' : high ∈ b :: rest := by
          rcases List.mem_cons.mp inHigh with rfl | later
          · omega
          · exact later
        obtain ⟨pair,inside,between⟩ := ih sorted' (by simp) inHigh' lower (fun c inC => absent c (List.mem_cons_of_mem _ inC))
        exact ⟨pair,List.mem_cons_of_mem _ inside,between⟩
      · exact ⟨(a,b),by simp,first,higher⟩

end Neighbours
end Foundation
