import Mathlib.Tactic.Common

/-! Programs that return a value or an error, or panic, and change a world on the way.
A loop gets a number of passes, and one that uses them up is still running. A triple also
says what holds of the world when no value is returned. -/
namespace Foundation

inductive Returned (α : Type) where
  | value (value : α)
  | error (text : String)
  | panic
  | running
  deriving DecidableEq, Repr

def Go (σ α : Type) := σ → Returned α × σ

namespace Go

variable {σ α β : Type}

def bind (program : Go σ α) (following : α → Go σ β) : Go σ β := fun world =>
  match program world with
  | (.value value,middle) => following value middle
  | (.error text,middle) => (.error text,middle)
  | (.panic,middle) => (.panic,middle)
  | (.running,middle) => (.running,middle)

instance : Monad (Go σ) where
  pure value := fun world => (.value value,world)
  bind := bind

def fail (text : String) : Go σ α := fun world => (.error text,world)

def crash : Go σ α := fun world => (.panic,world)

def run (call : σ → Except String α × σ) : Go σ α := fun world =>
  match call world with
  | (.ok value,after) => (.value value,after)
  | (.error text,after) => (.error text,after)

def change (update : σ → σ) : Go σ Unit := fun world => (.value (),update world)

/-- `if err != nil { return fmt.Errorf(..., err) }` after a call. -/
def describe (text : String → String) (program : Go σ α) : Go σ α := fun world =>
  match program world with
  | (.error reason,after) => (.error (text reason),after)
  | ended => ended

/-- A call whose error result is not looked at. -/
def ignoreError (program : Go σ α) : Go σ Unit := fun world =>
  match program world with
  | (.value _,after) => (.value (),after)
  | (.error _,after) => (.value (),after)
  | (.panic,after) => (.panic,after)
  | (.running,after) => (.running,after)

def forEach (body : α → Go σ β) : List α → Go σ (List β)
  | [] => return []
  | item :: items => do
    let result ← body item
    let results ← forEach body items
    return result :: results

def loop (body : α → Go σ (α ⊕ β)) : Nat → α → Go σ β
  | 0, _ => fun world => (.running,world)
  | passes + 1, state => do
    match ← body state with
    | .inl state' => loop body passes state'
    | .inr result => return result

/-- A program over one half of a world. -/
def onFirst {τ : Type} (program : Go σ α) : Go (σ × τ) α := fun world =>
  ((program world.1).1,(program world.1).2,world.2)

def onSecond {τ : Type} (program : Go τ α) : Go (σ × τ) α := fun world =>
  ((program world.2).1,world.1,(program world.2).2)

theorem pure_value (value : α) (world : σ) : (pure value : Go σ α) world = (.value value,world) := rfl

theorem bind_value {program : Go σ α} (following : α → Go σ β) {world middle : σ} {value : α}
    (ran : program world = (.value value,middle)) : (program >>= following) world = following value middle := by
  have unfolded : (program >>= following) world = bind program following world := rfl
  rw [unfolded,bind,ran]

theorem bind_error {program : Go σ α} (following : α → Go σ β) {world middle : σ} {text : String}
    (ran : program world = (.error text,middle)) : (program >>= following) world = (.error text,middle) := by
  have unfolded : (program >>= following) world = bind program following world := rfl
  rw [unfolded,bind,ran]

theorem bind_pure_world (program : Go σ α) (convert : α → β) (world : σ) :
    ((program >>= fun value => (pure (convert value) : Go σ β)) world).2 = (program world).2 := by
  have unfolded : (program >>= fun value => (pure (convert value) : Go σ β)) world =
    bind program (fun value => pure (convert value)) world := rfl
  rw [unfolded,bind]
  rcases program world with ⟨value | _ | _ | _,after⟩ <;> rfl

theorem value_of_bind {program : Go σ α} {following : α → Go σ β} {world after : σ} {value : β}
    (ran : (program >>= following) world = (.value value,after)) :
    ∃ first middle, program world = (.value first,middle) ∧ following first middle = (.value value,after) := by
  have unfolded : (program >>= following) world = bind program following world := rfl
  rw [unfolded,bind] at ran
  split at ran
  next first middle called => exact ⟨first,middle,called,ran⟩
  all_goals cases ran

/-- What holds of the world at the end: `after` with a value, `stopped` without one. -/
def Ends (after : α → σ → Prop) (stopped : σ → Prop) : Returned α × σ → Prop
  | (.value value,world) => after value world
  | (.error _,world) => stopped world
  | (.panic,world) => stopped world
  | (.running,world) => stopped world

theorem ends_always {holds : σ → Prop} {ended : Returned α × σ} (final : holds ended.2) :
    Ends (fun _ => holds) holds ended := by
  rcases ended with ⟨value | _ | _ | _,world⟩
  all_goals exact final

theorem Ends.always {holds : σ → Prop} {ended : Returned α × σ} (ends : Ends (fun _ => holds) holds ended) : holds ended.2 := by
  rcases ended with ⟨value | _ | _ | _,world⟩
  all_goals exact ends

structure Triple (before : σ → Prop) (program : Go σ α) (after : α → σ → Prop) (stopped : σ → Prop) : Prop where
  ends : ∀ world, before world → Ends after stopped (program world)

/-- What a pass of a loop leaves: the invariant of the next one, or the result. -/
def Continues (invariant : α → σ → Prop) (done : β → σ → Prop) : α ⊕ β → σ → Prop
  | .inl state, world => invariant state world
  | .inr value, world => done value world

section Rules
variable {before : σ → Prop} {after : α → σ → Prop} {stopped : σ → Prop} {program : Go σ α}

theorem triple_pure (value : α) (holds : ∀ world, before world → after value world) :
    Triple before (pure value) after stopped :=
  ⟨holds⟩

theorem triple_fail (text : String) (holds : ∀ world, before world → stopped world) :
    Triple before (fail text) after stopped :=
  ⟨holds⟩

theorem triple_crash (holds : ∀ world, before world → stopped world) :
    Triple before (crash : Go σ α) after stopped :=
  ⟨holds⟩

theorem triple_change {update : σ → σ} {done : Unit → σ → Prop} (holds : ∀ world, before world → done () (update world)) :
    Triple before (change update) done stopped :=
  ⟨holds⟩

theorem triple_run {call : σ → Except String α × σ}
    (ok : ∀ world value world', before world → call world = (.ok value,world') → after value world')
    (failed : ∀ world text world', before world → call world = (.error text,world') → stopped world') :
    Triple before (run call) after stopped := by
  constructor
  intro world given
  rw [run]
  rcases called : call world with ⟨text | value,world'⟩
  · exact failed world text world' given called
  · exact ok world value world' given called

theorem triple_bind {middle : α → σ → Prop} {done : β → σ → Prop} {following : α → Go σ β}
    (first : Triple before program middle stopped) (second : ∀ value, Triple (middle value) (following value) done stopped) :
    Triple before (program >>= following) done stopped := by
  constructor
  intro world given
  have called := first.ends world given
  have unfolded : (program >>= following) world = bind program following world := rfl
  rw [unfolded,bind]
  generalize program world = ended at called ⊢
  rcases ended with ⟨value | _ | _ | _,middle⟩
  · exact (second value).ends middle called
  all_goals exact called

/-- The rule of consequence. -/
theorem Triple.consequence {before' : σ → Prop} {after' : α → σ → Prop} {stopped' : σ → Prop}
    (holds : Triple before program after stopped) (stronger : ∀ world, before' world → before world)
    (weaker : ∀ value world, after value world → after' value world) (less : ∀ world, stopped world → stopped' world) :
    Triple before' program after' stopped' := by
  constructor
  intro world given
  have called := holds.ends world (stronger world given)
  generalize program world = ended at called ⊢
  rcases ended with ⟨value | _ | _ | _,world'⟩
  · exact weaker value world' called
  all_goals exact less world' called

theorem triple_or {before' : σ → Prop} {after' : α → σ → Prop} {stopped' : σ → Prop}
    (first : Triple before program after stopped) (second : Triple before' program after' stopped') :
    Triple (fun world => before world ∨ before' world) program (fun value world => after value world ∨ after' value world)
      (fun world => stopped world ∨ stopped' world) := by
  constructor
  rintro world (given | given)
  · exact ((first.consequence (fun _ => id) (fun _ _ => .inl) (fun _ => .inl)).ends world given)
  · exact ((second.consequence (fun _ => id) (fun _ _ => .inr) (fun _ => .inr)).ends world given)

theorem triple_and {before' : σ → Prop} {after' : α → σ → Prop} {stopped' : σ → Prop}
    (first : Triple before program after stopped) (second : Triple before' program after' stopped') :
    Triple (fun world => before world ∧ before' world) program (fun value world => after value world ∧ after' value world)
      (fun world => stopped world ∧ stopped' world) := by
  constructor
  rintro world ⟨given,given'⟩
  have called := first.ends world given
  have called' := second.ends world given'
  generalize program world = ended at called called' ⊢
  rcases ended with ⟨value | _ | _ | _,world'⟩
  all_goals exact ⟨called,called'⟩

theorem triple_exists {ι : Type} {before : ι → σ → Prop} (each : ∀ index, Triple (before index) program after stopped) :
    Triple (fun world => ∃ index, before index world) program after stopped :=
  ⟨fun world ⟨index,given⟩ => (each index).ends world given⟩

theorem triple_given {fact : Prop} (holds : fact → Triple before program after stopped) :
    Triple (fun world => fact ∧ before world) program after stopped :=
  ⟨fun world given => (holds given.1).ends world given.2⟩

/-- A returned value is one the program does return. -/
theorem Triple.returned (holds : Triple before program after stopped) :
    Triple before program (fun value world => (∃ start, program start = (.value value,world)) ∧ after value world) stopped := by
  constructor
  intro world given
  have called := holds.ends world given
  rcases ran : program world with ⟨value | _ | _ | _,world'⟩
  · rw [ran] at called
    exact ⟨⟨world,ran⟩,called⟩
  all_goals
    rw [ran] at called
    exact called

theorem triple_describe (text : String → String) (holds : Triple before program after stopped) :
    Triple before (describe text program) after stopped := by
  constructor
  intro world given
  have called := holds.ends world given
  rw [describe]
  generalize program world = ended at called ⊢
  rcases ended with ⟨value | _ | _ | _,world'⟩
  all_goals exact called

/-- Nothing but `stopped` is left of a call whose error is ignored. -/
theorem triple_ignoreError (holds : Triple before program (fun _ => stopped) stopped) :
    Triple before (ignoreError program) (fun _ => stopped) stopped := by
  constructor
  intro world given
  have called := holds.ends world given
  rw [ignoreError]
  generalize program world = ended at called ⊢
  rcases ended with ⟨value | _ | _ | _,world'⟩
  all_goals exact called

theorem triple_onFirst {τ : Type} (holds : Triple before program after stopped) :
    Triple (fun world => before world.1) (onFirst program : Go (σ × τ) α) (fun value world => after value world.1)
      (fun world => stopped world.1) := by
  constructor
  intro world given
  have called := holds.ends world.1 given
  rw [onFirst]
  generalize program world.1 = ended at called ⊢
  rcases ended with ⟨value | _ | _ | _,world'⟩
  all_goals exact called

/-- What is known of one half may speak of the other, which stays the same. -/
theorem triple_onFirst_each {τ : Type} {before stopped : τ → σ → Prop} {after : τ → α → σ → Prop}
    (each : ∀ other, Triple (before other) program (after other) (stopped other)) :
    Triple (fun world => before world.2 world.1) (onFirst program : Go (σ × τ) α) (fun value world => after world.2 value world.1)
      (fun world => stopped world.2 world.1) := by
  constructor
  intro world given
  have called := (each world.2).ends world.1 given
  rw [onFirst]
  generalize program world.1 = ended at called ⊢
  rcases ended with ⟨value | _ | _ | _,world'⟩
  all_goals exact called

theorem triple_onSecond_each {τ : Type} {before stopped : σ → τ → Prop} {after : σ → α → τ → Prop} {program : Go τ α}
    (each : ∀ other, Triple (before other) program (after other) (stopped other)) :
    Triple (fun world => before world.1 world.2) (onSecond program : Go (σ × τ) α) (fun value world => after world.1 value world.2)
      (fun world => stopped world.1 world.2) := by
  constructor
  intro world given
  have called := (each world.1).ends world.2 given
  rw [onSecond]
  generalize program world.2 = ended at called ⊢
  rcases ended with ⟨value | _ | _ | _,world'⟩
  all_goals exact called

/-- A program over one half keeps what is known of the other. -/
theorem triple_onSecond {τ : Type} (program : Go τ α) :
    Triple (fun world => before world.1) (onSecond program : Go (σ × τ) α) (fun _ world => before world.1)
      (fun world => before world.1) := by
  constructor
  intro world given
  rw [onSecond]
  rcases program world.2 with ⟨value | _ | _ | _,world'⟩
  all_goals exact given

theorem triple_onFirst_other {τ : Type} {kept : τ → Prop} (program : Go σ α) :
    Triple (fun world => kept world.2) (onFirst program : Go (σ × τ) α) (fun _ world => kept world.2)
      (fun world => kept world.2) := by
  constructor
  intro world given
  rw [onFirst]
  rcases program world.1 with ⟨value | _ | _ | _,world'⟩
  all_goals exact given

/-- The invariant of a loop over a list speaks of the items still to come. -/
theorem triple_forEach (coming : List α → σ → Prop) {body : α → Go σ β}
    (step : ∀ item items, Triple (coming (item :: items)) (body item) (fun _ => coming items) stopped) (items : List α) :
    Triple (coming items) (forEach body items) (fun _ => coming []) stopped := by
  induction items with
  | nil => exact triple_pure [] (fun _ none => none)
  | cons item items ih =>
    rw [forEach]
    refine triple_bind (step item items) (fun result => ?_)
    exact triple_bind ih (fun results => triple_pure _ (fun _ none => none))

/-- What is found out about each item outlives the passes that follow. -/
theorem triple_forEach_each (coming : List α → σ → Prop) (found : α → β → σ → Prop) {body : α → Go σ β}
    (step : ∀ item items, Triple (coming (item :: items)) (body item)
      (fun result world => coming items world ∧ found item result world) stopped)
    (lasts : ∀ item result other, Triple (found item result) (body other) (fun _ => found item result) (found item result))
    (items : List α) : Triple (coming items) (forEach body items)
      (fun results world => coming [] world ∧ List.Forall₂ (fun item result => found item result world) items results) stopped := by
  induction items with
  | nil => exact triple_pure [] (fun _ none => ⟨none,.nil⟩)
  | cons item items ih =>
    rw [forEach]
    refine triple_bind (step item items) (fun result => ?_)
    have later := triple_and ih (triple_forEach (fun _ => found item result) (fun other _ => lasts item result other) items)
    refine triple_bind (later.consequence (fun _ => id) (fun _ _ => id) (fun _ => And.left)) (fun results => ?_)
    exact triple_pure _ (fun world given => ⟨given.1.1,.cons given.2 given.1.2⟩)

theorem triple_loop (invariant : α → σ → Prop) {done : β → σ → Prop} {body : α → Go σ (α ⊕ β)}
    (step : ∀ state, Triple (invariant state) (body state) (Continues invariant done) stopped)
    (running : ∀ state world, invariant state world → stopped world) (passes : Nat) (state : α) :
    Triple (invariant state) (loop body passes state) done stopped := by
  induction passes generalizing state with
  | zero => exact ⟨running state⟩
  | succ passes ih =>
    rw [loop]
    refine triple_bind (step state) (fun result => ?_)
    cases result with
    | inl state' => exact ih state'
    | inr value => exact triple_pure value (fun _ holds => holds)

end Rules

/-- A program that only adds to a list, whatever is on it already. -/
structure Appends {ω : Type} (program : Go (List ω) α) : Prop where
  ran : ∀ list, program list = ((program []).1,list ++ (program []).2)

section Writing
variable {ω : Type}

theorem appends_pure (value : α) : Appends (pure value : Go (List ω) α) :=
  ⟨fun list => by rw [pure_value,pure_value,List.append_nil]⟩

theorem appends_crash : Appends (crash : Go (List ω) α) :=
  ⟨fun list => by rw [crash,crash,List.append_nil]⟩

theorem appends_change (items : List ω) : Appends (change (fun list => list ++ items)) :=
  ⟨fun _ => rfl⟩

theorem Appends.bind {program : Go (List ω) α} {following : α → Go (List ω) β} (first : Appends program)
    (second : ∀ value, Appends (following value)) : Appends (program >>= following) := by
  constructor
  intro list
  have unfolded : ∀ list, (program >>= following) list = Go.bind program following list := fun _ => rfl
  rw [unfolded,unfolded,Go.bind,Go.bind,first.ran list]
  rcases program [] with ⟨value | _ | _ | _,items⟩
  · dsimp only
    rw [(second value).ran (list ++ items),(second value).ran items,List.append_assoc]
  all_goals rfl

theorem appends_forEach {body : α → Go (List ω) β} (each : ∀ item, Appends (body item)) (items : List α) :
    Appends (forEach body items) := by
  induction items with
  | nil => exact appends_pure []
  | cons item items ih => exact (each item).bind (fun _ => ih.bind (fun _ => appends_pure _))

end Writing
end Go
end Foundation
