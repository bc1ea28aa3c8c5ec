import Mathlib

/-! Empirical distribution functions of two samples, and a merge of the sorted samples that
notes how far apart the two functions are after each step. -/
namespace Foundation.Empirical

section Distribution
variable {α : Type} [LinearOrder α]

noncomputable def cdf (items : List α) (x : α) : ℝ := items.countP (· ≤ x) / items.length

noncomputable def apart (a b : List α) (x : α) : ℝ := |cdf a x - cdf b x|

/-- The two-sample Kolmogorov-Smirnov distance. -/
def Distance (a b : List α) (distance : ℝ) : Prop := IsGreatest (Set.range (apart a b)) distance

/-- How far apart the functions are after `i` of `n` and `j` of `m` items. -/
noncomputable def gap (n m i j : Nat) : ℝ := |(i : ℝ) / n - (j : ℝ) / m|

def upTo (items : List α) (x : α) : Nat := items.countP (· ≤ x)

def below (items : List α) (x : α) : Nat := items.countP (· < x)

def common (a b : List α) (v : α) : Nat := min (a.count v) (b.count v)

/-- How far apart they are at a value after the repetitions that both samples have of it. -/
noncomputable def corner (a b : List α) (v : α) : ℝ :=
  gap a.length b.length (below a v + common a b v) (below b v + common a b v)

/-- Takes the least item that is left, and one of each list where the two lists agree. -/
noncomputable def walk (n m : Nat) : List α → List α → Nat → Nat → ℝ → ℝ
  | [], _, _, _, distance => distance
  | _, [], _, _, distance => distance
  | a :: as, b :: bs, i, j, distance =>
    if a < b then walk n m as (b :: bs) (i + 1) j (max distance (gap n m (i + 1) j))
    else if b < a then walk n m (a :: as) bs i (j + 1) (max distance (gap n m i (j + 1)))
    else walk n m as bs (i + 1) (j + 1) (max distance (gap n m (i + 1) (j + 1)))
termination_by a b => a.length + b.length

end Distribution

section Gap
variable {n m i j : Nat} {bound : ℝ}

theorem gap_zero (n m : Nat) : gap n m 0 0 = 0 := by simp [gap]

theorem gap_swap (n m i j : Nat) : gap n m i j = gap m n j i := by
  rw [gap,gap,abs_sub_comm]

theorem gap_step {extra : Nat} (positive : 1 ≤ extra) (here : gap n m i j ≤ bound) (there : gap n m (i + extra) j ≤ bound) :
    gap n m (i + 1) j ≤ bound := by
  rw [gap,abs_le] at here there ⊢
  have low : (i : ℝ) / n ≤ (i + 1 : Nat) / n := by
    gcongr
    omega
  have high : ((i + 1 : Nat) : ℝ) / n ≤ (i + extra : Nat) / n := by
    gcongr
  constructor
  · linarith
  · linarith

theorem gap_diagonal {extra : Nat} (positive : 1 ≤ extra) (here : gap n m i j ≤ bound)
    (there : gap n m (i + extra) (j + extra) ≤ bound) : gap n m (i + 1) (j + 1) ≤ bound := by
  rw [gap,abs_le] at here there ⊢
  push_cast [add_div] at here there ⊢
  have many : (1 : ℝ) ≤ extra := by exact_mod_cast positive
  have spread : (extra : ℝ) / n - extra / m = extra * (1 / n - 1 / m) := by ring
  rcases le_total 0 ((1 : ℝ) / n - 1 / m) with up | down
  · have further := mul_le_mul_of_nonneg_right many up
    constructor <;> linarith
  · have further := mul_le_mul_of_nonpos_right many down
    constructor <;> linarith

/-- Once one list is used up the functions only come closer. -/
theorem gap_rest {extra : Nat} (positive : 0 < n) (inside : j + extra ≤ m) : gap n m n (j + extra) ≤ gap n m n j := by
  have whole : (n : ℝ) / n = 1 := div_self (by positivity)
  have below : (j : ℝ) / m ≤ (j + extra : Nat) / m := by
    gcongr
    omega
  have above : ((j + extra : Nat) : ℝ) / m ≤ 1 := by
    apply div_le_one_of_le₀
    · exact_mod_cast inside
    · positivity
  rw [gap,gap,whole,abs_of_nonneg (by linarith),abs_of_nonneg (by linarith)]
  linarith

end Gap

section Walk
variable {α : Type} [LinearOrder α] {n m : Nat}

theorem least_head {first x : α} {items : List α} (sorted : (first :: items).Pairwise (· ≤ ·)) (least : x ≤ first) :
    ∀ item ∈ first :: items, x ≤ item := by
  intro item inside
  rcases List.mem_cons.mp inside with rfl | later
  · exact least
  · exact least.trans ((List.pairwise_cons.mp sorted).1 item later)

theorem upTo_none {x : α} {items : List α} (above : ∀ item ∈ items, x < item) : upTo items x = 0 := by
  apply List.countP_eq_zero.mpr
  intro item inside
  simpa using above item inside

theorem upTo_before {first x : α} {items : List α} (sorted : (first :: items).Pairwise (· ≤ ·)) (less : x < first) :
    upTo (first :: items) x = 0 :=
  upTo_none fun item inside => lt_of_lt_of_le less (least_head sorted (le_refl _) item inside)

theorem upTo_reached {first x : α} (items : List α) (reached : first ≤ x) : upTo (first :: items) x = 1 + upTo items x := by
  rw [upTo,List.countP_cons_of_pos (by simpa using reached),Nat.add_comm]
  rfl

theorem upTo_length (items : List α) (x : α) : upTo items x ≤ items.length := List.countP_le_length

theorem below_none {v : α} {items : List α} (least : ∀ item ∈ items, v ≤ item) : below items v = 0 := by
  apply List.countP_eq_zero.mpr
  intro item inside
  simpa using least item inside

theorem below_head {first v : α} (items : List α) (less : first < v) : below (first :: items) v = 1 + below items v := by
  rw [below,List.countP_cons_of_pos (by simpa using less),Nat.add_comm]
  rfl

theorem common_swap (a b : List α) (v : α) : common a b v = common b a v := Nat.min_comm _ _

theorem common_head {first v : α} (a b : List α) (less : first < v) : common (first :: a) b v = common a b v := by
  rw [common,List.count_cons_of_ne less.ne]
  rfl

theorem common_same (v : α) (a b : List α) : common (v :: a) (v :: b) v = common a b v + 1 := by
  rw [common,common,List.count_cons_self,List.count_cons_self]
  omega

theorem common_mem {a b : List α} {v : α} (shared : 0 < common a b v) : v ∈ a ∧ v ∈ b := by
  rw [common] at shared
  exact ⟨List.count_pos_iff.mp (by omega),List.count_pos_iff.mp (by omega)⟩

theorem common_pos {a b : List α} {v : α} (inA : v ∈ a) (inB : v ∈ b) : 0 < common a b v :=
  Nat.lt_min.mpr ⟨List.count_pos_iff.mpr inA,List.count_pos_iff.mpr inB⟩

theorem walk_left (b : List α) (i j : Nat) (distance : ℝ) : walk n m [] b i j distance = distance := by
  rw [walk]

theorem walk_right (a : List α) (i j : Nat) (distance : ℝ) : walk n m a [] i j distance = distance := by
  cases a <;> simp [walk]

theorem walk_less {a b : α} (as bs : List α) (i j : Nat) (distance : ℝ) (less : a < b) :
    walk n m (a :: as) (b :: bs) i j distance = walk n m as (b :: bs) (i + 1) j (max distance (gap n m (i + 1) j)) := by
  simp [walk,less]

theorem walk_more {a b : α} (as bs : List α) (i j : Nat) (distance : ℝ) (more : b < a) :
    walk n m (a :: as) (b :: bs) i j distance = walk n m (a :: as) bs i (j + 1) (max distance (gap n m i (j + 1))) := by
  simp [walk,more,not_lt_of_gt more]

theorem walk_same (v : α) (as bs : List α) (i j : Nat) (distance : ℝ) :
    walk n m (v :: as) (v :: bs) i j distance = walk n m as bs (i + 1) (j + 1) (max distance (gap n m (i + 1) (j + 1))) := by
  simp [walk]

/-- What a merge keeps to its end, by the head that it takes. -/
theorem merge_rule {Holds : List α → List α → Prop} (left : ∀ b, Holds [] b) (right : ∀ a, Holds a [])
    (less : ∀ a as b bs, a < b → Holds as (b :: bs) → Holds (a :: as) (b :: bs))
    (more : ∀ a as b bs, b < a → Holds (a :: as) bs → Holds (a :: as) (b :: bs))
    (same : ∀ v as bs, Holds as bs → Holds (v :: as) (v :: bs)) (a b : List α) : Holds a b := by
  induction a generalizing b with
  | nil => exact left b
  | cons a as ih =>
    induction b with
    | nil => exact right _
    | cons b bs ih' =>
      rcases lt_trichotomy a b with ordered | rfl | ordered
      · exact less a as b bs ordered (ih _)
      · exact same a as bs (ih _)
      · exact more a as b bs ordered ih'

theorem walk_grows (a b : List α) (i j : Nat) (distance : ℝ) : distance ≤ walk n m a b i j distance := by
  induction a, b using merge_rule generalizing i j distance with
  | left b => rw [walk_left]
  | right a => rw [walk_right]
  | less a as b bs ordered ih =>
    rw [walk_less as bs i j distance ordered]
    exact (le_max_left _ _).trans (ih _ _ _)
  | more a as b bs ordered ih =>
    rw [walk_more as bs i j distance ordered]
    exact (le_max_left _ _).trans (ih _ _ _)
  | same v as bs ih =>
    rw [walk_same]
    exact (le_max_left _ _).trans (ih _ _ _)

/-- No threshold shows the functions further apart than the merge found them. -/
theorem walk_covers {a b : List α} {i j : Nat} {distance : ℝ} (sortedA : a.Pairwise (· ≤ ·)) (sortedB : b.Pairwise (· ≤ ·))
    (someA : 0 < n) (someB : 0 < m) (lengthA : i + a.length = n) (lengthB : j + b.length = m) (here : gap n m i j ≤ distance)
    (x : α) : gap n m (i + upTo a x) (j + upTo b x) ≤ walk n m a b i j distance := by
  induction a, b using merge_rule generalizing i j distance with
  | left b =>
    have counted := upTo_length b x
    have whole : i + upTo [] x = n := lengthA
    have whole' : i = n := lengthA
    rw [walk_left,whole]
    rw [whole'] at here
    exact (gap_rest someA (by omega)).trans here
  | right a =>
    have counted := upTo_length a x
    have whole : j + upTo [] x = m := lengthB
    have whole' : j = m := lengthB
    rw [walk_right,whole,gap_swap]
    rw [whole',gap_swap] at here
    exact (gap_rest someB (by omega)).trans here
  | less a as b bs ordered ih =>
    rw [walk_less as bs i j distance ordered]
    rw [List.length_cons] at lengthA
    rcases le_or_gt a x with reached | before
    · rw [upTo_reached as reached,← Nat.add_assoc]
      exact ih (List.pairwise_cons.mp sortedA).2 sortedB (by omega) lengthB (le_max_right _ _)
    · rw [upTo_before sortedA before,upTo_before sortedB (before.trans ordered)]
      exact (here.trans (le_max_left _ _)).trans (walk_grows _ _ _ _ _)
  | more a as b bs ordered ih =>
    rw [walk_more as bs i j distance ordered]
    rw [List.length_cons] at lengthB
    rcases le_or_gt b x with reached | before
    · rw [upTo_reached bs reached,← Nat.add_assoc]
      exact ih sortedA (List.pairwise_cons.mp sortedB).2 lengthA (by omega) (le_max_right _ _)
    · rw [upTo_before sortedB before,upTo_before sortedA (before.trans ordered)]
      exact (here.trans (le_max_left _ _)).trans (walk_grows _ _ _ _ _)
  | same v as bs ih =>
    rw [walk_same]
    rw [List.length_cons] at lengthA lengthB
    rcases le_or_gt v x with reached | before
    · rw [upTo_reached as reached,upTo_reached bs reached,← Nat.add_assoc,← Nat.add_assoc]
      exact ih (List.pairwise_cons.mp sortedA).2 (List.pairwise_cons.mp sortedB).2 (by omega) (by omega) (le_max_right _ _)
    · rw [upTo_before sortedA before,upTo_before sortedB before]
      exact (here.trans (le_max_left _ _)).trans (walk_grows _ _ _ _ _)

/-- The merge passes through every corner. -/
theorem walk_corner {a b : List α} {i j : Nat} {distance : ℝ} (sortedA : a.Pairwise (· ≤ ·)) (sortedB : b.Pairwise (· ≤ ·))
    {v : α} (shared : 0 < common a b v) :
    gap n m (i + (below a v + common a b v)) (j + (below b v + common a b v)) ≤ walk n m a b i j distance := by
  induction a, b using merge_rule generalizing i j distance with
  | left b => simp [common] at shared
  | right a => simp [common] at shared
  | less a as b bs ordered ih =>
    have above : a < v := lt_of_lt_of_le ordered (least_head sortedB (le_refl _) v (common_mem shared).2)
    rw [common_head as (b :: bs) above] at shared ⊢
    rw [walk_less as bs i j distance ordered,below_head as above,Nat.add_assoc 1,← Nat.add_assoc i]
    exact ih (List.pairwise_cons.mp sortedA).2 sortedB shared
  | more a as b bs ordered ih =>
    have above : b < v := lt_of_lt_of_le ordered (least_head sortedA (le_refl _) v (common_mem shared).1)
    rw [common_swap,common_head bs (a :: as) above,common_swap] at shared ⊢
    rw [walk_more as bs i j distance ordered,below_head bs above,Nat.add_assoc 1,← Nat.add_assoc j]
    exact ih sortedA (List.pairwise_cons.mp sortedB).2 shared
  | same w as bs ih =>
    obtain ⟨leastA,sortedA'⟩ := List.pairwise_cons.mp sortedA
    obtain ⟨leastB,sortedB'⟩ := List.pairwise_cons.mp sortedB
    rw [walk_same]
    rcases eq_or_lt_of_le (least_head sortedA (le_refl _) v (common_mem shared).1) with rfl | above
    · rw [below_none (least_head sortedA (le_refl _)),below_none (least_head sortedB (le_refl _)),common_same,Nat.zero_add,
        Nat.add_comm _ 1,← Nat.add_assoc,← Nat.add_assoc]
      rcases Nat.eq_zero_or_pos (common as bs w) with last | further
      · rw [last]
        exact (le_max_right _ _).trans (walk_grows _ _ _ _ _)
      · have reached : gap n m (i + 1 + (below as w + common as bs w)) (j + 1 + (below bs w + common as bs w)) ≤
          walk n m as bs (i + 1) (j + 1) (max distance (gap n m (i + 1) (j + 1))) := ih sortedA' sortedB' further
        rwa [below_none leastA,below_none leastB,Nat.zero_add] at reached
    · rw [common_head as (w :: bs) above,common_swap,common_head bs as above,common_swap] at shared ⊢
      rw [below_head as above,below_head bs above,Nat.add_assoc 1,Nat.add_assoc 1,← Nat.add_assoc i,← Nat.add_assoc j]
      exact ih sortedA' sortedB' shared

/-- No threshold and no corner of what is left shows more than the bound. -/
structure Bounds (n m : Nat) (bound : ℝ) (a b : List α) (i j : Nat) : Prop where
  here : gap n m i j ≤ bound
  thresholds : ∀ x, gap n m (i + upTo a x) (j + upTo b x) ≤ bound
  corners : ∀ v, 0 < common a b v → gap n m (i + (below a v + common a b v)) (j + (below b v + common a b v)) ≤ bound

section Bounds
variable {a b v : α} {as bs : List α} {i j : Nat} {bound : ℝ}

theorem Bounds.swap (bounds : Bounds n m bound as bs i j) : Bounds m n bound bs as j i where
  here := by
    rw [gap_swap]
    exact bounds.here
  thresholds x := by
    rw [gap_swap]
    exact bounds.thresholds x
  corners v shared := by
    rw [common_swap] at shared ⊢
    rw [gap_swap]
    exact bounds.corners v shared

theorem Bounds.less (bounds : Bounds n m bound (a :: as) (b :: bs) i j) (sortedA : (a :: as).Pairwise (· ≤ ·))
    (sortedB : (b :: bs).Pairwise (· ≤ ·)) (ordered : a < b) : Bounds n m bound as (b :: bs) (i + 1) j := by
  obtain ⟨leastA,sortedA'⟩ := List.pairwise_cons.mp sortedA
  have there := bounds.thresholds a
  rw [upTo_before sortedB ordered,upTo_reached as (le_refl a)] at there
  have next := gap_step (by omega) bounds.here there
  refine ⟨next,?_,?_⟩
  · intro x
    rcases le_or_gt a x with reached | before
    · rw [Nat.add_assoc,← upTo_reached as reached]
      exact bounds.thresholds x
    · rw [upTo_none (fun item inside => lt_of_lt_of_le before (leastA item inside)),upTo_before sortedB (before.trans ordered)]
      exact next
  · intro v shared
    have above : a < v := lt_of_lt_of_le ordered (least_head sortedB (le_refl _) v (common_mem shared).2)
    rw [← common_head as (b :: bs) above] at shared ⊢
    rw [Nat.add_assoc,← Nat.add_assoc 1,← below_head as above]
    exact bounds.corners v shared

theorem Bounds.same (bounds : Bounds n m bound (v :: as) (v :: bs) i j) (sortedA : (v :: as).Pairwise (· ≤ ·))
    (sortedB : (v :: bs).Pairwise (· ≤ ·)) : Bounds n m bound as bs (i + 1) (j + 1) := by
  obtain ⟨leastA,sortedA'⟩ := List.pairwise_cons.mp sortedA
  obtain ⟨leastB,sortedB'⟩ := List.pairwise_cons.mp sortedB
  have there := bounds.corners v (by rw [common_same]; omega)
  rw [below_none (least_head sortedA (le_refl _)),below_none (least_head sortedB (le_refl _)),Nat.zero_add] at there
  have next := gap_diagonal (by rw [common_same]; omega) bounds.here there
  refine ⟨next,?_,?_⟩
  · intro x
    rcases le_or_gt v x with reached | before
    · rw [Nat.add_assoc i,Nat.add_assoc j,← upTo_reached as reached,← upTo_reached bs reached]
      exact bounds.thresholds x
    · rw [upTo_none (fun item inside => lt_of_lt_of_le before (leastA item inside)),
        upTo_none (fun item inside => lt_of_lt_of_le before (leastB item inside))]
      exact next
  · intro w shared
    rcases eq_or_lt_of_le (leastA w (common_mem shared).1) with rfl | above
    · rw [below_none leastA,below_none leastB,Nat.zero_add,Nat.add_assoc,Nat.add_assoc,Nat.add_comm 1,← common_same]
      rwa [common_same] at there ⊢
    · have stays : common (v :: as) (v :: bs) w = common as bs w := by
        rw [common_head as (v :: bs) above,common_swap,common_head bs as above,common_swap]
      rw [← stays] at shared ⊢
      rw [Nat.add_assoc i,Nat.add_assoc j,← Nat.add_assoc 1,← Nat.add_assoc 1,← below_head as above,← below_head bs above]
      exact bounds.corners w shared

end Bounds

/-- It finds nothing but what a threshold or a corner shows. -/
theorem walk_bounded {a b : List α} {i j : Nat} {distance bound : ℝ} (sortedA : a.Pairwise (· ≤ ·)) (sortedB : b.Pairwise (· ≤ ·))
    (small : distance ≤ bound) (bounds : Bounds n m bound a b i j) : walk n m a b i j distance ≤ bound := by
  induction a, b using merge_rule generalizing i j distance with
  | left b => rwa [walk_left]
  | right a => rwa [walk_right]
  | less a as b bs ordered ih =>
    have next := bounds.less sortedA sortedB ordered
    rw [walk_less as bs i j distance ordered]
    exact ih (List.pairwise_cons.mp sortedA).2 sortedB (max_le small next.here) next
  | more a as b bs ordered ih =>
    have next := (bounds.swap.less sortedB sortedA ordered).swap
    rw [walk_more as bs i j distance ordered]
    exact ih sortedA (List.pairwise_cons.mp sortedB).2 (max_le small next.here) next
  | same v as bs ih =>
    have next := bounds.same sortedA sortedB
    rw [walk_same]
    exact ih (List.pairwise_cons.mp sortedA).2 (List.pairwise_cons.mp sortedB).2 (max_le small next.here) next

theorem apart_perm {a a' b b' : List α} (permA : a'.Perm a) (permB : b'.Perm b) : apart a' b' = apart a b := by
  funext x
  rw [apart,apart,cdf,cdf,cdf,cdf,permA.countP_eq,permB.countP_eq,permA.length_eq,permB.length_eq]

theorem farthest (a b : List α) [Nonempty α] : ∃ x, Distance a b (apart a b x) := by
  let stops : α → Nat × Nat := fun x => (upTo a x,upTo b x)
  have finite : (Set.range stops).Finite := by
    apply ((Finset.range (a.length + 1)) ×ˢ (Finset.range (b.length + 1))).finite_toSet.subset
    rintro _ ⟨x,rfl⟩
    have first := upTo_length a x
    have second := upTo_length b x
    simp [stops]
    omega
  obtain ⟨_,⟨x,rfl⟩,most⟩ := (Set.range stops).exists_max_image (fun stop => gap a.length b.length stop.1 stop.2) finite
    (Set.range_nonempty stops)
  refine ⟨x,⟨x,rfl⟩,?_⟩
  rintro _ ⟨y,rfl⟩
  exact most (stops y) ⟨y,rfl⟩

theorem walk_upper {a b : List α} (sortedA : a.Pairwise (· ≤ ·)) (sortedB : b.Pairwise (· ≤ ·)) (someA : a ≠ []) (someB : b ≠ [])
    (x : α) : apart a b x ≤ walk a.length b.length a b 0 0 0 := by
  have covered := walk_covers (i := 0) (j := 0) sortedA sortedB (List.length_pos_iff.mpr someA)
    (List.length_pos_iff.mpr someB) (Nat.zero_add _) (Nat.zero_add _) (gap_zero _ _).le x
  rwa [Nat.zero_add,Nat.zero_add] at covered

/-- The merge gives the distance just when no corner exceeds it. -/
theorem distance_walk {a b : List α} (sortedA : a.Pairwise (· ≤ ·)) (sortedB : b.Pairwise (· ≤ ·)) (someA : a ≠ [])
    (someB : b ≠ []) :
    Distance a b (walk a.length b.length a b 0 0 0) ↔ ∀ v ∈ a, v ∈ b → ∃ x, corner a b v ≤ apart a b x := by
  constructor
  · rintro ⟨⟨x,reached⟩,-⟩ v inA inB
    have passed : gap a.length b.length (0 + (below a v + common a b v)) (0 + (below b v + common a b v)) ≤
      walk a.length b.length a b 0 0 0 := walk_corner sortedA sortedB (common_pos inA inB)
    rw [Nat.zero_add,Nat.zero_add,← reached] at passed
    exact ⟨x,passed⟩
  · intro corners
    have present : Nonempty α := ⟨a.head someA⟩
    obtain ⟨x,-,most⟩ := farthest a b
    have positive : 0 ≤ apart a b x := abs_nonneg _
    have bounded : walk a.length b.length a b 0 0 0 ≤ apart a b x := by
      refine walk_bounded sortedA sortedB positive ⟨?_,?_,?_⟩
      · rwa [gap_zero]
      · intro y
        rw [Nat.zero_add,Nat.zero_add]
        exact most ⟨y,rfl⟩
      · intro v shared
        rw [Nat.zero_add,Nat.zero_add]
        obtain ⟨inA,inB⟩ := common_mem shared
        obtain ⟨y,shown⟩ := corners v inA inB
        exact shown.trans (most ⟨y,rfl⟩)
    have upper := walk_upper sortedA sortedB someA someB
    refine ⟨⟨x,le_antisymm (upper x) bounded⟩,?_⟩
    rintro _ ⟨y,rfl⟩
    exact upper y

end Walk
end Foundation.Empirical
