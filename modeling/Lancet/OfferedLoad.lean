import Lancet.Agent
import Lancet.InverseCdf

/-! The load an agent offers (agent.c, stats.c): `set_load` sets the averages of the generator of
its threads and of the reference one. Over exact numbers the mean of what they return is then
the interval that the load asks for. -/
namespace Lancet.OfferedLoad
open Foundation Distributions RandGen Agent MeasureTheory

/-- The generator has a value for every number between 0 and 1, and these have the mean. -/
def HasMean (gen : RandGen ℝ) (mean : ℝ) : Prop :=
  ∃ sample : ℝ → ℝ, (∀ y, 0 < y → y < 1 → invCdf gen y = .next (some (sample y))) ∧ MeanOf sample mean

/-- The kinds with an average to set, in any state; the Pareto tail has to have a mean. -/
def Steerable : RandGen ℝ → Prop
  | .fixed _ => True
  | .exp _ => True
  | .gpar params => params.shape < 1 ∧ params.shape ≠ 0
  | _ => False

theorem fixed_mean (value : ℝ) : HasMean (.fixed value) value :=
  ⟨fun _ => value,fun _ _ _ => rfl,meanOf_const value⟩

theorem exp_mean {lambda : ℝ} : HasMean (.exp lambda) (1 / lambda) := by
  refine ⟨fun y => 0 + -(1 / lambda) * Real.log y,fun y low _ => ?_,?_⟩
  · rw [invCdf,ExactMath.log_pos low,Option.map_some,ExactMath.neg_eq]
    congr 2
    ring
  · have mean := meanOf_log.affine 0 (-(1 / lambda))
    have value : 0 + -(1 / lambda) * -1 = 1 / lambda := by ring
    rwa [value] at mean

theorem gpar_mean {params : ParamLss ℝ} (light : params.shape < 1) (shaped : params.shape ≠ 0) :
    HasMean (.gpar params) (params.loc + params.scale / (1 - params.shape)) := by
  have tail : 1 - params.shape ≠ 0 := by linarith
  refine ⟨fun y => params.loc - params.scale / params.shape + params.scale / params.shape * (1 - y) ^ (-params.shape),
    fun y _ high => ?_,?_⟩
  · rw [invCdf,InverseCdf.gparInvCdf_value params high]
    congr 2
    ring
  · have mean := (meanOf_rpow light).affine (params.loc - params.scale / params.shape) (params.scale / params.shape)
    have value : params.loc - params.scale / params.shape + params.scale / params.shape * (1 / (1 - params.shape)) =
        params.loc + params.scale / (1 - params.shape) := by
      field_simp
      ring
    rwa [value] at mean

/-- The average that is set is the mean, whatever was set before. -/
theorem setAvg_mean {gen : RandGen ℝ} (steerable : Steerable gen) (avg : ℝ) :
    ∃ gen', setAvg gen avg = .next gen' ∧ Steerable gen' ∧ HasMean gen' avg := by
  cases gen with
  | fixed value => exact ⟨_,rfl,trivial,fixed_mean avg⟩
  | exp lambda =>
    have mean := @exp_mean (1 / avg)
    rw [one_div_one_div] at mean
    refine ⟨.exp (1 / avg),?_,trivial,mean⟩
    rw [setAvg,ExactDouble.ofInt_eq,Int.cast_one]
  | gpar params =>
    obtain ⟨light,shaped⟩ := steerable
    have tail : 1 - params.shape ≠ 0 := by linarith
    have mean : HasMean (.gpar {params with scale := (avg - params.loc) * (1 - params.shape)})
        (params.loc + (avg - params.loc) * (1 - params.shape) / (1 - params.shape)) := gpar_mean light shaped
    have value : params.loc + (avg - params.loc) * (1 - params.shape) / (1 - params.shape) = avg := by
      rw [mul_div_cancel_right₀ _ tail]
      ring
    rw [value] at mean
    refine ⟨.gpar {params with scale := (avg - params.loc) * (1 - params.shape)},?_,⟨light,shaped⟩,mean⟩
    rw [setAvg,ExactDouble.ofInt_eq,Int.cast_one]
  | gev params => exact steerable.elim
  | bimodal low up prob => exact steerable.elim
  | lognorm mu sigma => exact steerable.elim

/-- The threads together offer the commanded load, and the reference generator all of it. -/
theorem set_load_offered {threadCount : Int} {idist referenceIaGen : RandGen ℝ} {load : UInt32} (loaded : 0 < load)
    (threads : 1 ≤ threadCount) (steerable : Steerable idist) (steerable' : Steerable referenceIaGen) :
    ∃ idist' referenceIaGen', setLoad threadCount idist referenceIaGen load = .next (idist',referenceIaGen') ∧
      HasMean idist' (1000000 * threadCount / load.toNat) ∧ HasMean referenceIaGen' (1000000 / load.toNat) := by
  have nonzero : (load.toNat : ℝ) ≠ 0 := by exact_mod_cast (UInt32.lt_iff_toNat_lt.mp loaded).ne'
  have several : (threadCount : ℝ) ≠ 0 := by exact_mod_cast (by omega : threadCount ≠ 0)
  obtain ⟨referenceIaGen',moved,-,mean⟩ := setAvg_mean steerable' (1000000 / load.toNat)
  obtain ⟨idist',moved',-,mean'⟩ := setAvg_mean steerable (1000000 / (load.toNat / threadCount))
  have share : (1000000 : ℝ) / (load.toNat / threadCount) = 1000000 * threadCount / load.toNat := by field_simp
  rw [share] at mean'
  refine ⟨idist',referenceIaGen',?_,mean',mean⟩
  have whole : ((load.toNat : Int) : ℝ) = load.toNat := Int.cast_natCast _
  rw [setLoad,setReferenceLoad,ExactDouble.ofInt_eq,ExactDouble.ofInt_eq,ExactDouble.ofInt_eq,whole,Int.cast_ofNat,moved,
    Outcome.next_bind]
  dsimp only
  rw [moved']
  rfl

/-- Four threads with Pareto intervals, set to 20000 requests a second after another load. -/
theorem set_load_offered_pareto : ∃ idist referenceIaGen, setLoad 4 (.gpar ⟨10,5,1 / 2⟩) (.gpar ⟨10,5,1 / 2⟩) 20000 =
    .next (idist,referenceIaGen) ∧ HasMean idist (1000000 * (4 : Int) / (20000 : UInt32).toNat) ∧
      HasMean referenceIaGen (1000000 / (20000 : UInt32).toNat) :=
  set_load_offered (by decide) (by decide) ⟨by norm_num,by norm_num⟩ ⟨by norm_num,by norm_num⟩

end Lancet.OfferedLoad
