import Lancet.PatternReturns

/-! The loads of a step pattern. The flag is documented as `step:start:end:step`, while `runExp`
takes the third part for the step and the fourth for the end. What is run is stated for any
test in place of `testAsymPattern`, so that the loads can be told apart. -/
namespace Lancet.StepLoads
open Foundation Proto Patterns ReliableNet PatternReturns

section Tests
variable {σ : Type} (test : Int → Go (σ × Screen) Unit)

def testPass (endLoad step loadRate : Int) : Go (σ × Screen) (Int ⊕ Unit) :=
  if loadRate < endLoad then do
    test loadRate
    screen (println "")
    return .inl (wrap (loadRate + step))
  else return .inr ()

/-- `stepPattern` with another test. -/
def stepPatternOf (passes : Nat) (startLoad endLoad step : Int) : Go (σ × Screen) Unit :=
  Go.loop (testPass test endLoad step) passes startLoad

/-- What `runExp` does with the parts of a step pattern. -/
def stepExp (passes : Nat) (patternAgs : List (List Char)) : Go (σ × Screen) Unit := do
  let startLoad ← parsePart patternAgs 1 parsingLoad
  let step ← parsePart patternAgs 2 parsingLoad
  let endLoad ← parsePart patternAgs 3 parsingLoad
  stepPatternOf test passes startLoad endLoad step

/-- One test after the other, each with the line printed after it, and then nil. -/
def testEach : List Int → Go (σ × Screen) Unit
  | [] => return ()
  | load :: loads => do
    test load
    screen (println "")
    testEach loads

end Tests

theorem runExp_step {σ : Type} {net : Net σ} {agents : Coordinator} {pattern : List Char} (passes : Nat)
    (latencyRate ciSize : Int) (name : (split ':' pattern).headD [] = ['s','t','e','p']) :
    runExp net passes agents pattern latencyRate ciSize =
      stepExp (fun load => testAsymPattern net (FixedLoop.started agents) load latencyRate) passes (split ':' pattern) := by
  have other : ¬(split ':' pattern).headD [] = ['f','i','x','e','d'] := by
    rw [name]
    decide
  rw [runExp,if_neg other,if_pos name]
  rfl

/-- The loads a loop tests, if it gets to its end within the passes. -/
def testedLoads (endLoad step : Int) : Nat → Int → Option (List Int)
  | 0, _ => none
  | passes + 1, load =>
    if load < endLoad then (testedLoads endLoad step passes (wrap (load + step))).map (load :: ·) else some []

section Effects
variable {σ : Type} {test : Int → Go (σ × Screen) Unit}

def printed (world : σ × Screen) : σ × Screen := (world.1,world.2 ++ [⟨"" ++ "\n",[]⟩])

theorem screen_println (world : σ × Screen) : screen (println "") world = (.value (),printed world) := rfl

/-- No test fails. -/
def Succeeds (test : Int → Go (σ × Screen) Unit) : Prop := ∀ load world, ∃ after, test load world = (.value (),after)

theorem testPass_below {endLoad step load : Int} (below : load < endLoad) {world after : σ × Screen}
    (ran : test load world = (.value (),after)) :
    testPass test endLoad step load world = (.value (.inl (wrap (load + step))),printed after) := by
  rw [testPass,if_pos below,Go.bind_value _ ran,Go.bind_value _ (screen_println after)]
  rfl

theorem testEach_cons {load : Int} (loads : List Int) {world after : σ × Screen} (ran : test load world = (.value (),after)) :
    testEach test (load :: loads) world = testEach test loads (printed after) := by
  rw [testEach,Go.bind_value _ ran,Go.bind_value _ (screen_println after)]

theorem loop_below {endLoad step load : Int} (below : load < endLoad) (passes : Nat) {world after : σ × Screen}
    (ran : test load world = (.value (),after)) :
    stepPatternOf test (passes + 1) load endLoad step world =
      stepPatternOf test passes (wrap (load + step)) endLoad step (printed after) := by
  rw [stepPatternOf,Go.loop,Go.bind_value _ (testPass_below below ran)]
  rfl

theorem loop_reached {endLoad step load : Int} (reached : ¬load < endLoad) (passes : Nat) (world : σ × Screen) :
    stepPatternOf test (passes + 1) load endLoad step world = (.value (),world) := by
  rw [stepPatternOf,Go.loop,testPass,if_neg reached]
  rfl

theorem stepPatternOf_tests (succeeds : Succeeds test) {endLoad step : Int} {passes : Nat} {load : Int} {loads : List Int}
    (tested : testedLoads endLoad step passes load = some loads) (world : σ × Screen) :
    stepPatternOf test passes load endLoad step world = testEach test loads world := by
  induction passes generalizing load loads world with
  | zero => cases tested
  | succ passes ih =>
    rw [testedLoads] at tested
    split at tested
    next below =>
      obtain ⟨loads',tested',rfl⟩ := Option.map_eq_some_iff.mp tested
      obtain ⟨after,ran⟩ := succeeds load world
      rw [loop_below below passes ran,testEach_cons loads' ran]
      exact ih tested' (printed after)
    next reached =>
      cases tested
      rw [loop_reached reached]
      rfl

theorem stepPatternOf_running (succeeds : Succeeds test) {endLoad step : Int} {passes : Nat} {load : Int}
    (unfinished : testedLoads endLoad step passes load = none) (world : σ × Screen) :
    (stepPatternOf test passes load endLoad step world).1 = .running := by
  induction passes generalizing load world with
  | zero => rfl
  | succ passes ih =>
    rw [testedLoads] at unfinished
    split at unfinished
    next below =>
      obtain ⟨after,ran⟩ := succeeds load world
      rw [loop_below below passes ran]
      exact ih (Option.map_eq_none_iff.mp unfinished) (printed after)
    next reached => cases unfinished

theorem testEach_value (succeeds : Succeeds test) (loads : List Int) (world : σ × Screen) :
    ∃ after, testEach test loads world = (.value (),after) := by
  induction loads generalizing world with
  | nil => exact ⟨world,rfl⟩
  | cons load loads ih =>
    obtain ⟨after,ran⟩ := succeeds load world
    rw [testEach_cons loads ran]
    exact ih (printed after)

/-- A test that only notes its load. -/
def note (load : Int) : Go (List Int × Screen) Unit := Go.onFirst (Go.change (fun noted => noted ++ [load]))

theorem note_succeeds : Succeeds note := fun load world => ⟨(world.1 ++ [load],world.2),rfl⟩

theorem testEach_notes (loads : List Int) (world : List Int × Screen) :
    (testEach note loads world).2.1 = world.1 ++ loads := by
  induction loads generalizing world with
  | nil => exact (List.append_nil _).symm
  | cons load loads ih =>
    have ran : note load world = (.value (),(world.1 ++ [load],world.2)) := rfl
    rw [testEach_cons loads ran,ih,printed,List.append_assoc,List.singleton_append]

/-- The pattern makes every test that succeeds run at exactly these loads, in this order. -/
def Runs (patternAgs : List (List Char)) (loads : List Int) : Prop :=
  ∀ (σ : Type) (test : Int → Go (σ × Screen) Unit), Succeeds test → ∀ world, ∃ passes,
    stepExp test passes patternAgs world = testEach test loads world

end Effects

theorem stepExp_parsed {σ : Type} (test : Int → Go (σ × Screen) Unit) {patternAgs : List (List Char)}
    {first second third : List Char} {startLoad step endLoad : Int} (given : patternAgs[1]? = some first)
    (given' : patternAgs[2]? = some second) (given'' : patternAgs[3]? = some third) (parsed : atoi first = some startLoad)
    (parsed' : atoi second = some step) (parsed'' : atoi third = some endLoad) (passes : Nat) :
    stepExp test passes patternAgs = stepPatternOf test passes startLoad endLoad step := by
  have part {index : Nat} {text : List Char} {value : Int} (given : patternAgs[index]? = some text)
      (parsed : atoi text = some value) : (parsePart patternAgs index parsingLoad : Go (σ × Screen) Int) = pure value := by
    rw [parsePart,given]
    dsimp only
    rw [parsed]
  rw [stepExp,part given parsed,part given' parsed',part given'' parsed'']
  rfl

theorem runs_iff {patternAgs : List (List Char)} {first second third : List Char} {startLoad step endLoad : Int}
    (given : patternAgs[1]? = some first) (given' : patternAgs[2]? = some second) (given'' : patternAgs[3]? = some third)
    (parsed : atoi first = some startLoad) (parsed' : atoi second = some step) (parsed'' : atoi third = some endLoad)
    (loads : List Int) : Runs patternAgs loads ↔ ∃ passes, testedLoads endLoad step passes startLoad = some loads := by
  constructor
  · intro runs
    obtain ⟨passes,same⟩ := runs (List Int) note note_succeeds ([],[])
    rw [stepExp_parsed note given given' given'' parsed parsed' parsed''] at same
    refine ⟨passes,?_⟩
    cases tested : testedLoads endLoad step passes startLoad with
    | none =>
      obtain ⟨after,value⟩ := testEach_value note_succeeds loads ([],[])
      have running := stepPatternOf_running note_succeeds tested ([],[])
      rw [same,value] at running
      cases running
    | some loads' =>
      rw [stepPatternOf_tests note_succeeds tested] at same
      have noted : (testEach note loads' ([],[])).2.1 = (testEach note loads ([],[])).2.1 := by rw [same]
      rw [testEach_notes,testEach_notes,List.nil_append,List.nil_append] at noted
      rw [noted]
  · rintro ⟨passes,tested⟩ σ test succeeds world
    exact ⟨passes,(congrFun (stepExp_parsed test given given' given'' parsed parsed' parsed'' passes) world).trans
      (stepPatternOf_tests succeeds tested world)⟩

/-- The loads from `startLoad` on in steps, below the end. -/
def documentedLoads (startLoad endLoad step : Int) : List Int :=
  (List.range ((endLoad - startLoad + step - 1) / step).toNat).map (fun count : Nat => startLoad + count * step)

section Documented
variable {startLoad endLoad step : Int}

theorem documentedLoads_nil (positive : 0 < step) (reached : endLoad ≤ startLoad) :
    documentedLoads startLoad endLoad step = [] := by
  have below : (endLoad - startLoad + step - 1) / step < 1 := Int.ediv_lt_of_lt_mul positive (by omega)
  have zero : ((endLoad - startLoad + step - 1) / step).toNat = 0 := by omega
  rw [documentedLoads,zero]
  rfl

theorem documentedLoads_cons (positive : 0 < step) (below : startLoad < endLoad) :
    documentedLoads startLoad endLoad step = startLoad :: documentedLoads (startLoad + step) endLoad step := by
  have shifted : endLoad - startLoad + step - 1 = endLoad - (startLoad + step) + step - 1 + 1 * step := by ring
  have nonneg : 0 ≤ (endLoad - (startLoad + step) + step - 1) / step := Int.ediv_nonneg (by omega) positive.le
  have one_more : ((endLoad - startLoad + step - 1) / step).toNat =
      ((endLoad - (startLoad + step) + step - 1) / step).toNat + 1 := by
    rw [shifted,Int.add_mul_ediv_right _ _ (Int.ne_of_gt positive)]
    omega
  rw [documentedLoads,one_more,List.range_succ_eq_map,List.map_cons,List.map_map,documentedLoads]
  congr 1
  · simp
  · refine List.map_congr_left fun count _ => ?_
    simp only [Function.comp_apply,Nat.succ_eq_add_one]
    push_cast
    ring

end Documented

section Tested
variable {endLoad step : Int} {passes : Nat} {load : Int}

theorem testedLoads_nil (tested : testedLoads endLoad step passes load = some []) : endLoad ≤ load := by
  cases passes with
  | zero => cases tested
  | succ passes =>
    rw [testedLoads] at tested
    split at tested
    next below =>
      obtain ⟨loads,-,impossible⟩ := Option.map_eq_some_iff.mp tested
      cases impossible
    next reached => exact Int.not_lt.mp reached

theorem testedLoads_cons {first : Int} {loads : List Int} (tested : testedLoads endLoad step passes load = some (first :: loads)) :
    load < endLoad ∧ load = first ∧ ∃ passes, testedLoads endLoad step passes (wrap (load + step)) = some loads := by
  cases passes with
  | zero => cases tested
  | succ passes =>
    rw [testedLoads] at tested
    split at tested
    next below =>
      obtain ⟨loads',tested',same⟩ := Option.map_eq_some_iff.mp tested
      cases same
      exact ⟨below,rfl,passes,tested'⟩
    next reached => cases tested

/-- The loop itself is as documented, as long as no load overflows. -/
theorem testedLoads_documented (positive : 0 < step) {startLoad : Int} (low : -2^63 ≤ startLoad)
    (fits : ∀ load ∈ documentedLoads startLoad endLoad step, load + step < 2^63) :
    ∃ passes, testedLoads endLoad step passes startLoad = some (documentedLoads startLoad endLoad step) := by
  generalize counted : (documentedLoads startLoad endLoad step).length = count
  induction count generalizing startLoad with
  | zero =>
    have empty := List.length_eq_zero_iff.mp counted
    have reached : ¬startLoad < endLoad := by
      intro below
      rw [documentedLoads_cons positive below] at empty
      cases empty
    exact ⟨1,by rw [testedLoads,if_neg reached,empty]⟩
  | succ count ih =>
    have below : startLoad < endLoad := by
      refine Int.not_le.mp fun reached => ?_
      rw [documentedLoads_nil positive reached] at counted
      cases counted
    rw [documentedLoads_cons positive below] at fits counted ⊢
    have next := fits startLoad List.mem_cons_self
    have above : -2^63 ≤ startLoad + step := by omega
    have inside : wrap (startLoad + step) = startLoad + step := Strides.bmod_of_range rfl above next
    obtain ⟨passes,tested⟩ := ih above (fun load later => fits load (List.mem_cons_of_mem _ later))
      (Nat.succ.inj counted)
    exact ⟨passes + 1,by rw [testedLoads,if_pos below,inside,tested,Option.map_some]⟩

end Tested

/-- When it makes no difference that the end and the step are taken for each other: they are
the same, or both ways there is no load, or both ways only the first. -/
def Agrees (startLoad endLoad step : Int) : Prop :=
  endLoad = step ∨ (endLoad ≤ startLoad ∧ step ≤ startLoad) ∨
    (startLoad < endLoad ∧ endLoad ≤ startLoad + step ∧ startLoad < step ∧ step ≤ wrap (startLoad + endLoad))

instance (startLoad endLoad step : Int) : Decidable (Agrees startLoad endLoad step) :=
  inferInstanceAs (Decidable (_ ∨ _ ∨ _))

theorem same_of_wrap {startLoad endLoad step : Int} (low : -2^63 ≤ endLoad) (high : endLoad < 2^63) (positive : 0 < step)
    (high' : step < 2^63) (same : wrap (startLoad + endLoad) = startLoad + step) : endLoad = step := by
  have congruent : (startLoad + endLoad) % (2^64 : Nat) = (startLoad + step) % (2^64 : Nat) := by
    rw [← same,wrap,Int.bmod_emod]
  omega

theorem swapped_iff {startLoad endLoad step : Int} (low : -2^63 ≤ startLoad) (low' : -2^63 ≤ endLoad) (high' : endLoad < 2^63)
    (positive : 0 < step) (high'' : step < 2^63) (fits : ∀ load ∈ documentedLoads startLoad endLoad step, load + step < 2^63) :
    (∃ passes, testedLoads step endLoad passes startLoad = some (documentedLoads startLoad endLoad step)) ↔
      Agrees startLoad endLoad step := by
  constructor
  · rintro ⟨passes,tested⟩
    by_cases below : startLoad < endLoad
    · rw [documentedLoads_cons positive below] at tested
      obtain ⟨below',-,passes',tested'⟩ := testedLoads_cons tested
      by_cases more : startLoad + step < endLoad
      · rw [documentedLoads_cons positive more] at tested'
        exact .inl (same_of_wrap low' high' positive high'' (testedLoads_cons tested').2.1)
      · rw [documentedLoads_nil positive (Int.not_lt.mp more)] at tested'
        exact .inr (.inr ⟨below,Int.not_lt.mp more,below',testedLoads_nil tested'⟩)
    · rw [documentedLoads_nil positive (Int.not_lt.mp below)] at tested
      exact .inr (.inl ⟨Int.not_lt.mp below,testedLoads_nil tested⟩)
  · rintro (same | ⟨reached,reached'⟩ | ⟨below,single,below',single'⟩)
    · subst same
      exact testedLoads_documented positive low fits
    · refine ⟨1,?_⟩
      rw [testedLoads,if_neg (Int.not_lt.mpr reached'),documentedLoads_nil positive reached]
    · refine ⟨2,?_⟩
      rw [testedLoads,if_pos below',testedLoads,if_neg (Int.not_lt.mpr single'),documentedLoads_cons positive below,
        documentedLoads_nil positive single]
      rfl

section Text

theorem split_part {separator : Char} {part : List Char} (free : separator ∉ part) (rest : List Char) :
    split separator (part ++ separator :: rest) = part :: split separator rest := by
  induction part with
  | nil => rw [List.nil_append,split,if_pos rfl]
  | cons char part ih =>
    obtain ⟨other,free'⟩ := not_or.mp (mt List.mem_cons.mpr free)
    rw [List.cons_append,split,if_neg (Ne.symm other),ih free']

theorem split_last {separator : Char} {part : List Char} (free : separator ∉ part) : split separator part = [part] := by
  induction part with
  | nil => rfl
  | cons char part ih =>
    obtain ⟨other,free'⟩ := not_or.mp (mt List.mem_cons.mpr free)
    rw [split,if_neg (Ne.symm other),ih free']

theorem fold_digits {step : Option Nat → Char → Option Nat} (stuck : ∀ char, step none char = none) {text : List Char}
    {start : Option Nat} {value : Nat} (folded : text.foldl step start = some value) :
    ∀ char ∈ text, ∃ before, (step before char).isSome := by
  induction text generalizing start with
  | nil => simp
  | cons first text ih =>
    rw [List.foldl_cons] at folded
    intro char inside
    rcases List.mem_cons.mp inside with rfl | later
    · refine ⟨start,?_⟩
      cases taken : step start char with
      | some _ => rfl
      | none =>
        have never : ∀ text : List Char, text.foldl step none = none := by
          intro text
          induction text with
          | nil => rfl
          | cons first text ih => rw [List.foldl_cons,stuck,ih]
        rw [taken,never] at folded
        cases folded
    · exact ih folded char later

theorem digits_no_colon {text : List Char} {value : Nat} (parsed : digits text = some value) : ':' ∉ text := by
  intro inside
  cases text with
  | nil => cases inside
  | cons first text =>
    rw [digits] at parsed
    · obtain ⟨before,digit⟩ := fold_digits (fun _ => rfl) parsed ':' inside
      cases before <;> cases digit
    · exact List.cons_ne_nil first text

theorem atoi_no_colon {text : List Char} {value : Int} (parsed : atoi text = some value) : ':' ∉ text := by
  unfold atoi at parsed
  have converted := (Option.filter_eq_some_iff.mp parsed).1
  split at converted
  next rest =>
    obtain ⟨_,plain,-⟩ := Option.map_eq_some_iff.mp converted
    obtain ⟨_,number,-⟩ := Option.bind_eq_some_iff.mp plain
    simpa using digits_no_colon number
  next rest =>
    obtain ⟨_,plain,-⟩ := Option.map_eq_some_iff.mp converted
    obtain ⟨_,number,-⟩ := Option.bind_eq_some_iff.mp plain
    simpa using digits_no_colon number
  next =>
    obtain ⟨_,plain,-⟩ := Option.map_eq_some_iff.mp converted
    obtain ⟨_,number,-⟩ := Option.bind_eq_some_iff.mp plain
    exact digits_no_colon number

end Text

/-- `step:start:end:step`, as the documentation of the flag has it. -/
def stepText (startText endText stepText : List Char) : List Char :=
  ['s','t','e','p'] ++ ':' :: (startText ++ ':' :: (endText ++ ':' :: stepText))

theorem split_stepText {startText endText lastText : List Char} (free : ':' ∉ startText) (free' : ':' ∉ endText)
    (free'' : ':' ∉ lastText) :
    split ':' (stepText startText endText lastText) = [['s','t','e','p'],startText,endText,lastText] := by
  rw [stepText,split_part (by decide),split_part free,split_part free',split_last free'']

/-- `runExp` with nothing but the test left open, and when it runs the documented loads. -/
theorem step_pattern_documented_iff {startText endText lastText : List Char} {startLoad endLoad step : Int}
    (starts : atoi startText = some startLoad) (ends : atoi endText = some endLoad) (steps : atoi lastText = some step)
    (positive : 0 < step) (fits : ∀ load ∈ documentedLoads startLoad endLoad step, load + step < 2^63) :
    (∀ (σ : Type) (net : Net σ) (passes : Nat) (agents : Coordinator) (latencyRate ciSize : Int),
      runExp net passes agents (stepText startText endText lastText) latencyRate ciSize =
        stepExp (fun load => testAsymPattern net (FixedLoop.started agents) load latencyRate) passes
          (split ':' (stepText startText endText lastText))) ∧
    (Runs (split ':' (stepText startText endText lastText)) (documentedLoads startLoad endLoad step) ↔
      Agrees startLoad endLoad step) := by
  have parts := split_stepText (atoi_no_colon starts) (atoi_no_colon ends) (atoi_no_colon steps)
  constructor
  · intro σ net passes agents latencyRate ciSize
    refine runExp_step passes latencyRate ciSize ?_
    rw [parts]
    rfl
  · rw [parts,runs_iff rfl rfl rfl starts ends steps]
    exact swapped_iff (atoi_range starts).1 (atoi_range ends).1 (atoi_range ends).2 positive (atoi_range steps).2 fits

/-- Only one load is below the end either way. -/
theorem single_load_documented :
    Runs (split ':' (stepText ['1','0','0'] ['1','5','0'] ['2','0','0'])) (documentedLoads 100 150 200) :=
  (step_pattern_documented_iff (by decide) (by decide) (by decide) (by decide) (by decide)).2.mpr (by decide)

/-- The default of the flag tests the first of its two loads only. -/
theorem default_pattern_skips :
    ¬Runs (split ':' "step:10000:100000:50000".toList) (documentedLoads 10000 100000 50000) ∧
      Runs (split ':' "step:10000:100000:50000".toList) [10000] := by
  have parts : split ':' "step:10000:100000:50000".toList =
      ["step".toList,"10000".toList,"100000".toList,"50000".toList] := by decide
  have loads : documentedLoads 10000 100000 50000 = [10000,60000] := by decide
  have tests := fun loads => @runs_iff (split ':' "step:10000:100000:50000".toList) "10000".toList "100000".toList
    "50000".toList 10000 100000 50000 (by rw [parts]; rfl) (by rw [parts]; rfl) (by rw [parts]; rfl) (by decide) (by decide)
    (by decide) loads
  rw [loads,tests,tests]
  constructor
  · rintro ⟨passes,tested⟩
    obtain ⟨-,-,passes',tested'⟩ := testedLoads_cons tested
    have second := (testedLoads_cons tested').2.1
    exact absurd second (by decide)
  · exact ⟨2,by decide⟩

end Lancet.StepLoads
