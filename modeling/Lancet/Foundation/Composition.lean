import Lancet.Foundation.Machine

/-! Machines made of components. A run of the whole is seen by a component as a run of its
own, in which the steps of the others leave no entry. -/
namespace Foundation.Machine

variable {σ ε ω σ' ε' ω' : Type}

theorem filterMap_snoc {α β : Type} (f : α → Option β) (log : List α) (entry : α) :
    (log ++ [entry]).filterMap f = log.filterMap f ++ (f entry).toList := by
  rw [List.filterMap_append]
  cases shown : f entry with
  | none => rw [List.filterMap_cons_none shown]; rfl
  | some value => rw [List.filterMap_cons_some shown]; rfl

/-- Every step of the whole is a step that the component is allowed, or leaves it as it is. -/
structure Projects (whole : Machine σ ε ω) (component : Machine σ' ε' ω') (environment : Environment σ ε ω)
    (environment' : Environment σ' ε' ω') (start : σ) (view : σ → σ') (image : ε × ω → Option (ε' × ω')) : Prop where
  seen : ∀ {log before event after output event' output'}, whole.Run environment start log before →
    environment log before event → whole.step before event = .next (after,output) →
    image (event,output) = some (event',output') → environment' (log.filterMap image) (view before) event' ∧
      component.step (view before) event' = .next (view after,output')
  unseen : ∀ {log before event after output}, whole.Run environment start log before → environment log before event →
    whole.step before event = .next (after,output) → image (event,output) = none → view after = view before

variable {whole : Machine σ ε ω} {component : Machine σ' ε' ω'} {environment : Environment σ ε ω}
  {environment' : Environment σ' ε' ω'} {start : σ} {view : σ → σ'} {image : ε × ω → Option (ε' × ω')}

theorem Run.project (projects : Projects whole component environment environment' start view image)
    {log : List (ε × ω)} {state : σ} (run : whole.Run environment start log state) :
    component.Run environment' (view start) (log.filterMap image) (view state) := by
  induction run with
  | nil => exact .nil
  | @snoc log before after event output past allowed stepped ih =>
    rw [filterMap_snoc]
    rcases shown : image (event,output) with _ | ⟨event',output'⟩
    · rw [Option.toList_none,List.append_nil,projects.unseen past allowed stepped shown]
      exact ih
    · obtain ⟨allowed',stepped'⟩ := projects.seen past allowed stepped shown
      exact .snoc ih allowed' stepped'

/-- An invariant that may use the run that leads to a state. -/
theorem Run.invariant_of_run {Holds : List (ε × ω) → σ → Prop} (initially : Holds [] start)
    (preserved : ∀ log before event after output, whole.Run environment start log before → Holds log before →
      environment log before event → whole.step before event = .next (after,output) → Holds (log ++ [(event,output)]) after)
    {log : List (ε × ω)} {state : σ} (run : whole.Run environment start log state) : Holds log state := by
  induction run with
  | nil => exact initially
  | snoc past allowed stepped ih => exact preserved _ _ _ _ _ past ih allowed stepped

/-- What holds of every step holds of every entry of a log and of the log before it. -/
theorem Run.entries {Holds : List (ε × ω) → ε × ω → Prop}
    (each : ∀ log before event after output, whole.Run environment start log before → environment log before event →
      whole.step before event = .next (after,output) → Holds log (event,output))
    {log : List (ε × ω)} {state : σ} (run : whole.Run environment start log state) {past future : List (ε × ω)}
    {entry : ε × ω} (split : log = past ++ entry :: future) : Holds past entry := by
  induction run generalizing future with
  | nil => exact absurd split (by simp)
  | @snoc log before after event output earlier allowed stepped ih =>
    rcases split_snoc split with ⟨rfl,rfl⟩ | ⟨future',inside⟩
    · exact each _ _ _ _ _ earlier allowed stepped
    · exact ih inside

end Foundation.Machine
