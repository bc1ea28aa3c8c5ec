import Lancet.Foundation.Machine
import Mathlib.Data.List.Induction

/-! Runs that come to an end. Steps of one kind lower a measure, so that only so many of them
follow any run, with idle steps in between; if a few steps that lower it are possible wherever
something is left, nothing is left in the end. -/
namespace Foundation.Machine

variable {σ ε ω : Type} {machine : Machine σ ε ω} {environment : Environment σ ε ω} {start : σ}

theorem Run.last {log : List (ε × ω)} {entry : ε × ω} {state : σ} (run : machine.Run environment start (log ++ [entry]) state) :
    ∃ before, machine.Run environment start log before ∧ environment log before entry.1 ∧
      machine.step before entry.1 = .next (state,entry.2) := by
  generalize whole : log ++ [entry] = all at run
  cases run with
  | nil => exact absurd whole (by simp)
  | snoc past allowed stepped =>
    obtain ⟨rfl,same⟩ := List.append_inj' whole rfl
    cases same
    exact ⟨_,past,allowed,stepped⟩

/-- A log leads to one state. -/
theorem Run.unique {log : List (ε × ω)} {state state' : σ} (run : machine.Run environment start log state)
    (run' : machine.Run environment start log state') : state = state' := by
  induction run generalizing state' with
  | nil =>
    generalize empty : ([] : List (ε × ω)) = log at run'
    cases run' with
    | nil => rfl
    | snoc past allowed stepped => exact absurd empty (by simp)
  | snoc past allowed stepped ih =>
    obtain ⟨before,past',-,stepped'⟩ := run'.last
    rw [ih past',stepped'] at stepped
    cases stepped
    rfl

/-- In every run the steps of a kind lower the measure. -/
def Lowers (machine : Machine σ ε ω) (environment : Environment σ ε ω) (start : σ) (kind : ε → Prop) (work : σ → Nat) : Prop :=
  ∀ log before event after output, machine.Run environment start log before → environment log before event →
    machine.step before event = .next (after,output) → kind event → work after < work before

/-- Idle steps do not raise it. -/
def Keeps (machine : Machine σ ε ω) (environment : Environment σ ε ω) (start : σ) (idle : ε × ω → Prop) (work : σ → Nat) : Prop :=
  ∀ log before event after output, machine.Run environment start log before → environment log before event →
    machine.step before event = .next (after,output) → idle (event,output) → work after ≤ work before

variable {kind : ε → Prop} {idle : ε × ω → Prop} {work : σ → Nat}

theorem Run.bounded [DecidablePred kind] (lowers : Lowers machine environment start kind work)
    (keeps : Keeps machine environment start idle work) {log more : List (ε × ω)} {state final : σ}
    (run : machine.Run environment start log state) (longer : machine.Run environment start (log ++ more) final)
    (kinds : ∀ entry ∈ more, kind entry.1 ∨ idle entry) : more.countP (fun entry => kind entry.1) + work final ≤ work state := by
  induction more using List.reverseRecOn generalizing final with
  | nil =>
    rw [List.append_nil] at longer
    rw [run.unique longer]
    exact Nat.le_of_eq (Nat.zero_add _)
  | append_singleton more entry ih =>
    rw [← List.append_assoc] at longer
    obtain ⟨before,past,allowed,stepped⟩ := longer.last
    have earlier := ih past fun other member => kinds other (List.mem_append_left _ member)
    rw [List.countP_append,List.countP_singleton]
    by_cases ofKind : kind entry.1
    · have lower := lowers _ _ _ _ _ past allowed stepped ofKind
      rw [if_pos (decide_eq_true ofKind)]
      omega
    · have other := (kinds entry (by simp)).resolve_left ofKind
      have kept := keeps _ _ _ _ _ past allowed stepped other
      rw [if_neg (by simpa using ofKind)]
      omega

/-- What the steps keep may be needed for the next of them to be possible. They come in pieces, each
under a reading of its own from outside. -/
theorem Run.drain {ρ : Type} {readings : Nat → ρ} {Kept Done : σ → Prop} {Piece : ρ → List (ε × ω) → Prop}
    (progress : ∀ index log state, machine.Run environment start log state → Kept state → ¬Done state →
      ∃ piece after, machine.Run environment start (log ++ piece) after ∧ Piece (readings index) piece ∧ work after < work state ∧ Kept after)
    {log : List (ε × ω)} {state : σ} (run : machine.Run environment start log state) (kept : Kept state) :
    ∃ (pieces : List (List (ε × ω))) (final : σ), machine.Run environment start (log ++ pieces.flatten) final ∧
      (∀ index piece, pieces[index]? = some piece → Piece (readings index) piece) ∧ Kept final ∧ Done final := by
  induction left : work state using Nat.strongRecOn generalizing log state readings with
  | ind remaining ih =>
    by_cases done : Done state
    · exact ⟨[],state,by rwa [List.flatten_nil,List.append_nil],(fun _ _ present => by cases present),kept,done⟩
    · obtain ⟨piece,after,longer,first,lower,kept'⟩ := progress 0 log state run kept done
      obtain ⟨pieces,final,longer',others,keptFinal,doneFinal⟩ :=
        @ih _ (left ▸ lower) (fun index => readings (index + 1)) (fun index => progress (index + 1)) _ _ longer kept' rfl
      rw [List.append_assoc] at longer'
      refine ⟨piece :: pieces,final,longer',fun index other present => ?_,keptFinal,doneFinal⟩
      cases index with
      | zero =>
        cases present
        exact first
      | succ index => exact others index other present

end Foundation.Machine
