import Lancet.Foundation.Machine
import Mathlib.Algebra.BigOperators.Group.Finset.Basic
import Mathlib.Algebra.Order.BigOperators.Group.Finset

/-! Open-loop arrivals. A loop keeps the time of its next departure and advances it by one
draw of the arrival process; a pause starts the schedule anew. -/
namespace Foundation.Arrivals

inductive Mark where
  | restarted (now : Int)
  -- whether the loop drew the next gap after it
  | departed (now : Int) (drew : Bool)
  | other
  deriving DecidableEq, Repr

structure Schedule where
  start : Int
  -- the draws before the start
  base : Nat
  departures : Nat
  drawn : Nat
  deriving DecidableEq, Repr

namespace Schedule

def beginning (now : Int) : Schedule := ⟨now,0,0,0⟩

def observe (schedule : Schedule) : Mark → Schedule
  | .restarted now => ⟨now,schedule.drawn,0,schedule.drawn⟩
  | .departed _ drew => {schedule with
      departures := schedule.departures + 1
      drawn := schedule.drawn + drew.toNat}
  | .other => schedule

/-- When the next departure is due: the start and one draw for each departure since. -/
def due (draws : Nat → Int) (schedule : Schedule) : Int :=
  schedule.start + ∑ i ∈ Finset.range schedule.departures, draws (schedule.base + i)

end Schedule

def scheduleOf (now : Int) (marks : List Mark) : Schedule := marks.foldl Schedule.observe (.beginning now)

/-- No departure comes before it is due. -/
def OnTime (draws : Nat → Int) (now : Int) (marks : List Mark) : Prop :=
  ∀ past time drew future, marks = past ++ .departed time drew :: future → (scheduleOf now past).due draws ≤ time

/-- What a step does to the time of the next departure. -/
def Follows (gap before after : Int) : Mark → Prop
  | .restarted now => after = now
  | .departed now drew => before ≤ now ∧ drew = true ∧ after = before + gap
  | .other => after = before

@[simp] theorem scheduleOf_snoc (now : Int) (marks : List Mark) (mark : Mark) :
    scheduleOf now (marks ++ [mark]) = (scheduleOf now marks).observe mark := List.foldl_concat ..

theorem due_departed {draws : Nat → Int} {schedule : Schedule} (counted : schedule.drawn = schedule.base + schedule.departures)
    (time : Int) : (schedule.observe (.departed time true)).due draws = schedule.due draws + draws schedule.drawn := by
  rw [Schedule.due,Schedule.observe]
  dsimp only
  rw [Finset.sum_range_succ,counted,Schedule.due,add_assoc]

structure Keeps (draws : Nat → Int) (now next : Int) (marks : List Mark) : Prop where
  counted : (scheduleOf now marks).drawn = (scheduleOf now marks).base + (scheduleOf now marks).departures
  due : next = (scheduleOf now marks).due draws
  onTime : OnTime draws now marks

theorem keeps_initially (draws : Nat → Int) (now : Int) : Keeps draws now now [] where
  counted := rfl
  due := by simp [scheduleOf,Schedule.beginning,Schedule.due]
  onTime past _ _ future impossible := absurd impossible (by simp)

theorem Keeps.observe {draws : Nat → Int} {now next next' : Int} {marks : List Mark} {mark : Mark}
    (keeps : Keeps draws now next marks) (follows : Follows (draws (scheduleOf now marks).drawn) next next' mark) :
    Keeps draws now next' (marks ++ [mark]) := by
  obtain ⟨counted,due,onTime⟩ := keeps
  have earlier : ∀ past time drew future, marks ++ [mark] = past ++ .departed time drew :: future →
      past = marks ∧ mark = .departed time drew ∨ (scheduleOf now past).due draws ≤ time := by
    intro past time drew future split
    rcases Machine.split_snoc split with ⟨rfl,rfl⟩ | ⟨future',before⟩
    · exact .inl ⟨rfl,rfl⟩
    · exact .inr (onTime past time drew future' before)
  cases mark with
  | restarted time =>
    refine ⟨?_,?_,fun past time drew future split => ?_⟩
    · rw [scheduleOf_snoc]
      rfl
    · rw [scheduleOf_snoc,show next' = time from follows]
      simp [Schedule.observe,Schedule.due]
    · rcases earlier past time drew future split with ⟨_,impossible⟩ | before
      · cases impossible
      · exact before
  | departed time drew =>
    obtain ⟨late,rfl,advanced⟩ := follows
    refine ⟨?_,?_,fun past time' drew future split => ?_⟩
    · rw [scheduleOf_snoc]
      dsimp only [Schedule.observe,Bool.toNat_true]
      omega
    · rw [scheduleOf_snoc,due_departed counted,advanced,due]
    · rcases earlier past time' drew future split with ⟨rfl,same⟩ | before
      · cases same
        exact due ▸ late
      · exact before
  | other =>
    refine ⟨?_,?_,fun past time drew future split => ?_⟩
    · rw [scheduleOf_snoc]
      exact counted
    · rw [scheduleOf_snoc]
      exact (show next' = next from follows).trans due
    · rcases earlier past time drew future split with ⟨_,impossible⟩ | before
      · cases impossible
      · exact before

/-- A machine each of whose steps follows the schedule departs on time in every run. -/
theorem onTime_run {σ ε ω : Type} {machine : Machine σ ε ω} {environment : Machine.Environment σ ε ω} {start : σ}
    {draws : Nat → Int} {now : Int} (mark : ε × ω → Mark) (next : σ → Int) (initially : next start = now)
    (follows : ∀ log before event after output, environment log before event →
      machine.step before event = .next (after,output) →
        Follows (draws (scheduleOf now (log.map mark)).drawn) (next before) (next after) (mark (event,output)))
    {log : List (ε × ω)} {final : σ} (run : machine.Run environment start log final) : OnTime draws now (log.map mark) := by
  have keeps : Keeps draws now (next final) (log.map mark) := by
    refine @Machine.Run.invariant _ _ _ _ _ _ (fun log state => Keeps draws now (next state) (log.map mark)) ?_ ?_ _ _ run
    · rw [initially]
      exact keeps_initially draws now
    · intro log before event after output keeps allowed stepped
      rw [List.map_append]
      exact keeps.observe (follows log before event after output allowed stepped)
  exact keeps.onTime

end Foundation.Arrivals
