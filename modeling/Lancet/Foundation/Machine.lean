import Mathlib.Tactic.Common

/-! Machines that an environment drives one event at a time.
A step may fault (a failed assertion, an access outside an object) or leave the
loop. Everything an invariant needs of the past is read off the log of a run, so
no history variable enters a state. -/
namespace Foundation

inductive Outcome (α : Type) where
  | next (value : α)
  | halt
  | fault
  deriving DecidableEq, Repr

namespace Outcome

def bind {α β : Type} (outcome : Outcome α) (following : α → Outcome β) : Outcome β :=
  match outcome with
  | next value => following value
  | halt => halt
  | fault => fault

instance : Monad Outcome where
  pure := next
  bind := bind

def assert (condition : Bool) : Outcome Unit :=
  if condition then next () else fault

@[simp] theorem pure_eq {α : Type} (value : α) : (pure value : Outcome α) = next value := rfl

@[simp] theorem next_bind {α β : Type} (value : α) (following : α → Outcome β) :
    (next value >>= following) = following value := rfl

@[simp] theorem fault_bind {α β : Type} (following : α → Outcome β) :
    ((fault : Outcome α) >>= following) = fault := rfl

@[simp] theorem halt_bind {α β : Type} (following : α → Outcome β) :
    ((halt : Outcome α) >>= following) = halt := rfl

theorem bind_next {α β : Type} {outcome : Outcome α} {following : α → Outcome β} {value : β}
    (computed : (outcome >>= following) = next value) :
    ∃ middle, outcome = next middle ∧ following middle = next value := by
  cases outcome with
  | next middle => exact ⟨middle,rfl,computed⟩
  | halt => cases computed
  | fault => cases computed

theorem bind_halt {α β : Type} {outcome : Outcome α} {following : α → Outcome β}
    (halted : (outcome >>= following) = halt) : outcome = halt ∨ ∃ middle, outcome = next middle ∧ following middle = halt := by
  cases outcome with
  | next middle => exact .inr ⟨middle,rfl,halted⟩
  | halt => exact .inl rfl
  | fault => cases halted

@[simp] theorem assert_next (condition : Bool) : assert condition = next () ↔ condition = true := by
  cases condition <;> simp [assert]

theorem assert_not_halt (condition : Bool) : assert condition ≠ halt := by
  cases condition with
  | true => exact fun halted => by cases halted
  | false => exact fun halted => by cases halted

@[simp] theorem assert_true : assert true = next () := rfl

@[simp] theorem assert_false : assert false = fault := rfl

end Outcome

structure Machine (σ ε ω : Type) where
  step : σ → ε → Outcome (σ × ω)

namespace Machine

variable {σ ε ω : Type} (machine : Machine σ ε ω)

abbrev Environment (σ ε ω : Type) := List (ε × ω) → σ → ε → Prop

inductive Run (environment : Environment σ ε ω) (start : σ) : List (ε × ω) → σ → Prop
  | nil : Run environment start [] start
  | snoc {log : List (ε × ω)} {before after : σ} {event : ε} {output : ω}
      (past : Run environment start log before)
      (allowed : environment log before event)
      (stepped : machine.step before event = .next (after,output)) :
      Run environment start (log ++ [(event,output)]) after

variable {machine} {environment : Environment σ ε ω} {start : σ}

/-- What holds at the start and survives every allowed step holds after every run. -/
theorem Run.invariant {Holds : List (ε × ω) → σ → Prop} (initially : Holds [] start)
    (preserved : ∀ log before event after output, Holds log before → environment log before event →
      machine.step before event = .next (after,output) → Holds (log ++ [(event,output)]) after)
    {log : List (ε × ω)} {state : σ} (run : machine.Run environment start log state) :
    Holds log state := by
  induction run with
  | nil => exact initially
  | snoc past allowed stepped ih => exact preserved _ _ _ _ _ ih allowed stepped

theorem Run.weaken {wider : Environment σ ε ω}
    (permits : ∀ log state event, environment log state event → wider log state event)
    {log : List (ε × ω)} {state : σ} (run : machine.Run environment start log state) :
    machine.Run wider start log state := by
  induction run with
  | nil => exact .nil
  | snoc past allowed stepped ih => exact .snoc ih (permits _ _ _ allowed) stepped

variable (machine)

def execute : σ → List ε → Outcome (σ × List ω)
  | state, [] => .next (state,[])
  | state, event :: events => do
    let (middle,output) ← machine.step state event
    let (final,outputs) ← execute middle events
    return (final,output :: outputs)

@[simp] theorem execute_nil (state : σ) : machine.execute state [] = .next (state,[]) := rfl

theorem execute_cons (state : σ) (event : ε) (events : List ε) :
    machine.execute state (event :: events) = (do
      let (middle,output) ← machine.step state event
      let (final,outputs) ← machine.execute middle events
      return (final,output :: outputs)) := rfl

variable {machine}

theorem execute_cons_next {state middle : σ} {event : ε} {output : ω} (events : List ε)
    (stepped : machine.step state event = .next (middle,output)) :
    machine.execute state (event :: events) = (do
      let (final,outputs) ← machine.execute middle events
      return (final,output :: outputs)) := by
  rw [execute_cons,stepped]
  rfl

/-- Runs the machine on given events while it checks what the environment allows. -/
def follow (machine : Machine σ ε ω) (allows : List (ε × ω) → σ → ε → Bool) :
    List (ε × ω) → σ → List ε → Option (List (ε × ω) × σ)
  | log, state, [] => some (log,state)
  | log, state, event :: events =>
    if allows log state event then
      match machine.step state event with
      | .next (after,output) => follow machine allows (log ++ [(event,output)]) after events
      | .halt | .fault => none
    else none

theorem follow_run {allows : List (ε × ω) → σ → ε → Bool} {final : σ} {trace : List (ε × ω)}
    (sound : ∀ log state event, allows log state event = true → environment log state event) (events : List ε)
    {log : List (ε × ω)} {state : σ} (run : machine.Run environment start log state)
    (followed : machine.follow allows log state events = some (trace,final)) :
    machine.Run environment start trace final := by
  induction events generalizing log state with
  | nil =>
    cases followed
    exact run
  | cons event events ih =>
    rw [follow] at followed
    split at followed
    next allowed =>
      split at followed
      next after output stepped => exact ih (.snoc run (sound _ _ _ allowed) stepped) followed
      next => cases followed
      next => cases followed
    next => cases followed

/-- Where an entry of a log with a new last entry stands. -/
theorem split_snoc {α : Type} {log past future : List α} {last entry : α} (split : log ++ [last] = past ++ entry :: future) :
    (past = log ∧ entry = last) ∨ ∃ future', log = past ++ entry :: future' := by
  rcases List.eq_nil_or_concat future with rfl | ⟨future',final,rfl⟩
  · obtain ⟨same,tail⟩ := List.append_inj' split rfl
    exact .inl ⟨same.symm,(List.cons.inj tail).1.symm⟩
  · rw [List.concat_eq_append,← List.cons_append,← List.append_assoc] at split
    obtain ⟨same,-⟩ := List.append_inj' split rfl
    exact .inr ⟨future',same⟩

/-- A run on given events whose outcome passes a test, from one evaluation. -/
theorem run_of_follow {allows : List (ε × ω) → σ → ε → Bool}
    (sound : ∀ log state event, allows log state event = true → environment log state event) (events : List ε)
    (check : List (ε × ω) × σ → Bool) (checked : (machine.follow allows [] start events).any check = true) :
    ∃ trace final, machine.Run environment start trace final ∧ check (trace,final) = true := by
  obtain ⟨⟨trace,final⟩,followed,passed⟩ := (Option.any_eq_true _ _).mp checked
  exact ⟨trace,final,follow_run sound events .nil followed,passed⟩

end Machine
end Foundation
