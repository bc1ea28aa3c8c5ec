import Lancet.RandGen

/-! The two generators of the option `-i`: the second `init_rand` is called on what the first
one has left of the specification, which is its name alone when there were parameters. -/
namespace Lancet.ReferenceSpec
open Foundation CString RandGen

theorem startsWith_name {kind : List Char} (plain : ':' ∉ kind) (name rest : List Char) :
    startsWith kind (name ++ ':' :: rest) = startsWith kind name := by
  induction name generalizing kind with
  | nil =>
    cases kind with
    | nil => rfl
    | cons char kind =>
      have other : char ≠ ':' := fun same => plain (same ▸ List.mem_cons_self)
      simp [startsWith,List.isPrefixOf,other]
  | cons first name ih =>
    cases kind with
    | nil => rfl
    | cons char kind =>
      have later := ih fun inside => plain (List.mem_cons_of_mem char inside)
      rw [startsWith,startsWith] at later
      rw [startsWith,startsWith,List.cons_append,List.isPrefixOf,List.isPrefixOf,later]

/-- The name of a specification and what stands behind its colon. -/
structure Named (text name rest : List Char) : Prop where
  first : nextToken ':' text = some (name,rest)
  single : nextToken ':' name = some (name,[])
  plain : ':' ∉ name
  leads : text.takeWhile (· = ':') = []
  same : text = name ∨ text = name ++ ':' :: rest

theorem Named.startsWith {text name rest : List Char} (named : Named text name rest) (kind : List Char) (plain : ':' ∉ kind) :
    startsWith kind text = startsWith kind name := by
  rcases named.same with same | same
  · rw [same]
  · rw [same,startsWith_name plain]

/-- The name on its own. -/
theorem Named.alone {text name rest : List Char} (named : Named text name rest) : Named name name [] := by
  refine ⟨named.single,named.single,named.plain,?_,.inl rfl⟩
  have plain := named.plain
  cases name with
  | nil => rfl
  | cons first name =>
    have other : first ≠ ':' := fun same => plain (same ▸ List.mem_cons_self)
    exact List.takeWhile_cons_of_neg (by simpa using other)

/-- A specification that starts with a kind has a name. -/
theorem named_of_kind {text kind : List Char} (starts : startsWith kind text = true) (nonempty : kind ≠ []) (plain : ':' ∉ kind) :
    ∃ name rest, Named text name rest := by
  obtain ⟨char,kind,rfl⟩ := List.exists_cons_of_ne_nil nonempty
  have no_colon : char ≠ ':' := fun same => plain (same ▸ List.mem_cons_self)
  cases text with
  | nil => cases starts
  | cons first text =>
    have head : char = first := by
      simp only [RandGen.startsWith,List.isPrefixOf,Bool.and_eq_true,beq_iff_eq] at starts
      exact starts.1
    subst head
    have leads : (char :: text).takeWhile (· = ':') = [] := List.takeWhile_cons_of_neg (by simpa using no_colon)
    rcases text_cases ':' (char :: text) with blank | ⟨lead,name,led,shape⟩
    · exact absurd (blank char List.mem_cons_self) no_colon
    · have bare : lead = [] := by
        cases lead with
        | nil => rfl
        | cons other lead =>
          have delim := led.delims other List.mem_cons_self
          rcases shape with same | ⟨rest,same⟩
          · exact absurd ((List.cons.inj same).1.trans delim) no_colon
          · exact absurd ((List.cons.inj same).1.trans delim) no_colon
      subst bare
      have alone : Led ':' [] name := ⟨by simp,led.nonempty,led.free⟩
      rcases shape with same | ⟨rest,same⟩
      · exact ⟨name,[],same ▸ led.nextToken_last,alone.nextToken_last,led.free,leads,.inl same⟩
      · exact ⟨name,rest,same ▸ led.nextToken_cut rest,alone.nextToken_last,led.free,leads,.inr same⟩

/-- The name stands at the start of the specification while its parameters are cut out. -/
structure Kept (name : List Char) (genType : Nat) (cut : Cut) (rest : List Char) : Prop where
  nameHeld : At cut.memory genType name
  restHeld : At cut.memory cut.save rest
  apart : rest = [] ∨ genType + name.length < cut.save

section Parsing
variable {F : Type} {atof : List Char → F} {memory : List Char} {genType : Nat} {text name rest : List Char}

theorem kept_first (held : At memory genType text) (named : Named text name rest) :
    Kept name genType (strtokR ':' memory genType) rest := by
  obtain ⟨start,taken⟩ := strtokR_some held named.first
  have here : start = genType := by rw [taken.starts,named.leads,List.length_nil,Nat.add_zero]
  subst here
  exact ⟨taken.tokenHeld,taken.restHeld,taken.apart⟩

theorem kept_next {cut : Cut} (kept : Kept name genType cut rest) {param rest' : List Char}
    (next : nextToken ':' rest = some (param,rest')) : ∃ start, (strtokR ':' cut.memory cut.save).token = some start ∧
      At (strtokR ':' cut.memory cut.save).memory start param ∧ Kept name genType (strtokR ':' cut.memory cut.save) rest' := by
  obtain ⟨start,taken⟩ := strtokR_some kept.restHeld next
  have present : rest ≠ [] := by
    rintro rfl
    cases next
  have apart := kept.apart.resolve_left present
  have after : cut.save ≤ start := by
    rw [taken.starts]
    exact Nat.le_add_right _ _
  have before := taken.before
  exact ⟨start,taken.found,taken.tokenHeld,taken.kept _ _ kept.nameHeld (.inr apart),taken.restHeld,.inr (by omega)⟩

theorem nextParam_missing {cut : Cut} (held : At cut.memory cut.save rest) (absent : nextToken ':' rest = none) :
    nextParam atof cut = .fault := by
  rw [nextParam,(strtokR_none held absent).1]

theorem nextParam_kept {cut cut' : Cut} {value : F} (kept : Kept name genType cut rest)
    (parsed : nextParam atof cut = .next (value,cut')) : ∃ rest', Kept name genType cut' rest' := by
  rcases next : nextToken ':' rest with _ | ⟨param,rest'⟩
  · rw [nextParam_missing kept.restHeld next] at parsed
    cases parsed
  · obtain ⟨start,found,-,kept'⟩ := kept_next kept next
    rw [nextParam,found] at parsed
    cases parsed
    exact ⟨rest',kept'⟩

theorem parseParam2_kept (held : At memory genType text) (named : Named text name rest) {param : F × F} {memory' : List Char}
    (parsed : parseParam2 atof memory genType = .next (param,memory')) : At memory' genType name := by
  obtain ⟨⟨a,cut⟩,first,parsed⟩ := Outcome.bind_next parsed
  obtain ⟨⟨b,cut'⟩,second,parsed⟩ := Outcome.bind_next parsed
  obtain ⟨rest',kept⟩ := nextParam_kept (kept_first held named) first
  obtain ⟨rest'',kept'⟩ := nextParam_kept kept second
  cases parsed
  exact kept'.nameHeld

theorem parseParam3_kept (held : At memory genType text) (named : Named text name rest) {param : F × F × F}
    {memory' : List Char} (parsed : parseParam3 atof memory genType = .next (param,memory')) : At memory' genType name := by
  obtain ⟨⟨a,cut⟩,first,parsed⟩ := Outcome.bind_next parsed
  obtain ⟨⟨b,cut'⟩,second,parsed⟩ := Outcome.bind_next parsed
  obtain ⟨⟨c,cut''⟩,third,parsed⟩ := Outcome.bind_next parsed
  obtain ⟨rest',kept⟩ := nextParam_kept (kept_first held named) first
  obtain ⟨rest'',kept'⟩ := nextParam_kept kept second
  obtain ⟨rest₃,kept''⟩ := nextParam_kept kept' third
  cases parsed
  exact kept''.nameHeld

/-- Without a second field there are no parameters to read. -/
theorem params_missing (held : At memory genType name) (single : nextToken ':' name = some (name,[])) :
    parseParam2 atof memory genType = .fault ∧ parseParam3 atof memory genType = .fault := by
  obtain ⟨start,taken⟩ := strtokR_some held single
  have missing : nextParam atof (strtokR ':' memory genType) = .fault := nextParam_missing taken.restHeld rfl
  rw [parseParam2,parseParam3,missing]
  exact ⟨rfl,rfl⟩

variable [CMath F]

/-- The only parameter is the second field, or 0. -/
theorem parseParam1_spec (held : At memory genType text) (named : Named text name rest) :
    (parseParam1 atof memory genType).1 = (match (tokens ':' text)[1]? with
      | none => CDouble.ofInt 0
      | some field => atof field) ∧ At (parseParam1 atof memory genType).2 genType name := by
  have kept := kept_first held named
  rw [parseParam1,tokens_next,named.first]
  dsimp only
  rw [List.getElem?_cons_succ,tokens_next]
  rcases next : nextToken ':' rest with _ | ⟨param,rest'⟩
  · obtain ⟨ended,same⟩ := strtokR_none kept.restHeld next
    rw [ended]
    exact ⟨rfl,same.symm ▸ kept.nameHeld⟩
  · obtain ⟨start,found,there,kept'⟩ := kept_next kept next
    rw [found]
    exact ⟨congrArg atof there.str_eq,kept'.nameHeld⟩

theorem parseParam1_again (held : At memory genType name) (alone : Named name name []) :
    (parseParam1 atof memory genType).1 = CDouble.ofInt 0 := by
  rw [(parseParam1_spec held alone).1,tokens_next,alone.single]
  rfl

/-- A kind with one parameter, of which the generator keeps what `read` tells: the second call
gets 0 in its place. -/
theorem second_param1_iff {β : Type} (read : F → β) {init : F → RandGen F} (reads : ∀ a b, init a = init b ↔ read a = read b)
    (held : At memory genType text) (named : Named text name rest)
    (again : initRand atof (parseParam1 atof memory genType).2 genType =
      .next (some (init (parseParam1 atof (parseParam1 atof memory genType).2 genType).1),
        (parseParam1 atof (parseParam1 atof memory genType).2 genType).2)) :
    (∃ memory'', initRand atof (parseParam1 atof memory genType).2 genType =
        .next (some (init (parseParam1 atof memory genType).1),memory'')) ↔
      ∀ field, (tokens ':' text)[1]? = some field → read (atof field) = read (CDouble.ofInt 0) := by
  obtain ⟨value,held'⟩ := @parseParam1_spec F atof memory genType text name rest _ held named
  have same : init (CDouble.ofInt 0) = init (parseParam1 atof memory genType).1 ↔
      ∀ field, (tokens ':' text)[1]? = some field → read (atof field) = read (CDouble.ofInt 0) := by
    rw [eq_comm,reads,value]
    cases (tokens ':' text)[1]? with
    | none => simp
    | some field => simp
  have zero : (parseParam1 atof (parseParam1 atof memory genType).2 genType).1 = CDouble.ofInt 0 :=
    parseParam1_again held' named.alone
  rw [again,zero,← same]
  constructor
  · rintro ⟨memory'',built⟩
    exact Option.some.inj (Prod.mk.inj (Outcome.next.inj built)).1
  · intro kept
    rw [kept]
    exact ⟨_,rfl⟩

/-- The specifications that stand for others. -/
def presets : List (List Char) := ["fb_key".toList,"fb_ia".toList,"fb_val".toList]

/-- When the specification cut down to its name gives the same generator again. -/
def SameAgain (atof : List Char → F) (text : List Char) : Prop :=
  if startsWith "fixed".toList text then ∀ field, (tokens ':' text)[1]? = some field → atof field = CDouble.ofInt 0
  else if startsWith "exp".toList text then ∀ field, (tokens ':' text)[1]? = some field →
    (CDouble.ofInt 1 / atof field : F) = CDouble.ofInt 1 / CDouble.ofInt 0
  else text ∈ presets

theorem init_fixed (held : At memory genType text) (kind : startsWith "fixed".toList text = true) :
    initRand atof memory genType = .next (some (fixedInit (parseParam1 atof memory genType).1),
      (parseParam1 atof memory genType).2) := by
  rw [initRand,held.str_eq,if_pos kind]
  rfl

theorem init_exp (held : At memory genType text) (other : ¬startsWith "fixed".toList text = true)
    (kind : startsWith "exp".toList text = true) :
    initRand atof memory genType = .next (some (expInit (parseParam1 atof memory genType).1),
      (parseParam1 atof memory genType).2) := by
  rw [initRand,held.str_eq,if_neg other,if_pos kind]
  rfl

/-- The preset specifications are copied, so that nothing is cut. -/
theorem init_preset (held : At memory genType text) (preset : text ∈ presets) {gen : RandGen F} {memory' : List Char}
    (built : initRand atof memory genType = .next (some gen,memory')) : memory' = memory := by
  have plain : ¬startsWith "fixed".toList text = true ∧ ¬startsWith "exp".toList text = true ∧
      ¬startsWith "pareto".toList text = true ∧ ¬startsWith "gev".toList text = true := by
    simp only [presets,List.mem_cons,List.not_mem_nil,or_false] at preset
    rcases preset with rfl | rfl | rfl <;> decide
  simp only [presets,List.mem_cons,List.not_mem_nil,or_false] at preset
  rw [initRand,held.str_eq,if_neg plain.1,if_neg plain.2.1,if_neg plain.2.2.1,if_neg plain.2.2.2] at built
  by_cases key : text = "fb_key".toList
  · rw [if_pos key] at built
    obtain ⟨gen',-,built⟩ := Outcome.bind_next built
    cases built
    rfl
  rw [if_neg key] at built
  by_cases ia : text = "fb_ia".toList
  · rw [if_pos ia] at built
    obtain ⟨gen',-,built⟩ := Outcome.bind_next built
    cases built
    rfl
  rw [if_neg ia,if_pos ((preset.resolve_left key).resolve_left ia)] at built
  obtain ⟨gen',-,built⟩ := Outcome.bind_next built
  cases built
  rfl

/-- The kinds with several parameters leave the name only. -/
theorem init_kinds (held : At memory genType text) (no_fixed : ¬startsWith "fixed".toList text = true)
    (no_exp : ¬startsWith "exp".toList text = true) (no_preset : text ∉ presets) {gen : RandGen F} {memory' : List Char}
    (built : initRand atof memory genType = .next (some gen,memory')) :
    ∃ kind name rest, kind ∈ ["pareto".toList,"gev".toList,"bimodal".toList,"lognorm".toList] ∧
      startsWith kind text = true ∧ Named text name rest ∧ At memory' genType name := by
  simp only [presets,List.mem_cons,List.not_mem_nil,or_false,not_or] at no_preset
  rw [initRand,held.str_eq,if_neg no_fixed,if_neg no_exp] at built
  by_cases pareto : startsWith "pareto".toList text = true
  · rw [if_pos pareto] at built
    obtain ⟨⟨param,memory''⟩,parsed,built⟩ := Outcome.bind_next built
    cases built
    obtain ⟨name,rest,named⟩ := named_of_kind pareto (by decide) (by decide)
    exact ⟨_,name,rest,by simp,pareto,named,parseParam3_kept held named parsed⟩
  rw [if_neg pareto] at built
  by_cases gev : startsWith "gev".toList text = true
  · rw [if_pos gev] at built
    obtain ⟨⟨param,memory''⟩,parsed,built⟩ := Outcome.bind_next built
    cases built
    obtain ⟨name,rest,named⟩ := named_of_kind gev (by decide) (by decide)
    exact ⟨_,name,rest,by simp,gev,named,parseParam3_kept held named parsed⟩
  rw [if_neg gev,if_neg no_preset.1,if_neg no_preset.2.1,if_neg no_preset.2.2] at built
  by_cases bimodal : startsWith "bimodal".toList text = true
  · rw [if_pos bimodal] at built
    obtain ⟨⟨param,memory''⟩,parsed,built⟩ := Outcome.bind_next built
    cases built
    obtain ⟨name,rest,named⟩ := named_of_kind bimodal (by decide) (by decide)
    exact ⟨_,name,rest,by simp,bimodal,named,parseParam3_kept held named parsed⟩
  rw [if_neg bimodal] at built
  by_cases lognorm : startsWith "lognorm".toList text = true
  · rw [if_pos lognorm] at built
    obtain ⟨⟨param,memory''⟩,parsed,built⟩ := Outcome.bind_next built
    cases built
    obtain ⟨name,rest,named⟩ := named_of_kind lognorm (by decide) (by decide)
    exact ⟨_,name,rest,by simp,lognorm,named,parseParam2_kept held named parsed⟩
  rw [if_neg lognorm] at built
  split_ifs at built
  · obtain ⟨param,-,built⟩ := Outcome.bind_next built
    cases built
  · cases built

/-- A name alone gives no generator of these kinds. -/
theorem init_name {name : List Char} (held : At memory genType name) (single : nextToken ':' name = some (name,[]))
    (no_fixed : ¬startsWith "fixed".toList name = true) (no_exp : ¬startsWith "exp".toList name = true)
    (no_preset : name ∉ presets) {gen : RandGen F} {memory' : List Char} :
    initRand atof memory genType ≠ .next (some gen,memory') := by
  intro built
  obtain ⟨missing,missing'⟩ := @params_missing F atof memory genType name held single
  simp only [presets,List.mem_cons,List.not_mem_nil,or_false,not_or] at no_preset
  rw [initRand,held.str_eq,if_neg no_fixed,if_neg no_exp,if_neg no_preset.1,if_neg no_preset.2.1,if_neg no_preset.2.2,missing,
    missing'] at built
  split_ifs at built
  all_goals cases built

end Parsing

theorem second_init_iff {F : Type} [CMath F] {atof : List Char → F} {memory memory' : List Char} {genType : Nat}
    {text : List Char} {gen : RandGen F} (held : At memory genType text)
    (built : initRand atof memory genType = .next (some gen,memory')) :
    (∃ memory'', initRand atof memory' genType = .next (some gen,memory'')) ↔ SameAgain atof text := by
  by_cases fixed : startsWith "fixed".toList text = true
  · obtain ⟨name,rest,named⟩ := named_of_kind fixed (by decide) (by decide)
    have fixed' : startsWith "fixed".toList name = true := (named.startsWith "fixed".toList (by decide)).symm.trans fixed
    rw [init_fixed held fixed] at built
    cases built
    rw [SameAgain,if_pos fixed]
    refine second_param1_iff id (fun a b => ?_) held named (init_fixed (parseParam1_spec held named).2 fixed')
    exact ⟨RandGen.fixed.inj,congrArg fixedInit⟩
  by_cases exp : startsWith "exp".toList text = true
  · obtain ⟨name,rest,named⟩ := named_of_kind exp (by decide) (by decide)
    have exp' : startsWith "exp".toList name = true := (named.startsWith "exp".toList (by decide)).symm.trans exp
    have fixed' : ¬startsWith "fixed".toList name = true := (named.startsWith "fixed".toList (by decide)) ▸ fixed
    rw [init_exp held fixed exp] at built
    cases built
    rw [SameAgain,if_neg fixed,if_pos exp]
    refine second_param1_iff (fun a => (CDouble.ofInt 1 / a : F)) (fun a b => ?_) held named
      (init_exp (parseParam1_spec held named).2 fixed' exp')
    exact ⟨RandGen.exp.inj,congrArg RandGen.exp⟩
  rw [SameAgain,if_neg fixed,if_neg exp]
  by_cases preset : text ∈ presets
  · rw [init_preset held preset built]
    exact iff_of_true ⟨memory',built⟩ preset
  · refine iff_of_false ?_ preset
    rintro ⟨memory'',built'⟩
    obtain ⟨kind,name,rest,known,starts,named,held'⟩ := init_kinds held fixed exp preset built
    have fixed' : ¬startsWith "fixed".toList name = true := (named.startsWith "fixed".toList (by decide)) ▸ fixed
    have exp' : ¬startsWith "exp".toList name = true := (named.startsWith "exp".toList (by decide)) ▸ exp
    refine init_name held' named.single fixed' exp' (fun preset' => ?_) built'
    -- a preset with more behind it is of no kind
    have plain : ':' ∉ kind := by
      simp only [List.mem_cons,List.not_mem_nil,or_false] at known
      rcases known with rfl | rfl | rfl | rfl <;> decide
    have starts' : startsWith kind name = true := (named.startsWith kind plain).symm.trans starts
    simp only [presets,List.mem_cons,List.not_mem_nil,or_false] at known preset'
    rcases preset' with rfl | rfl | rfl <;> rcases known with rfl | rfl | rfl | rfl <;> exact absurd starts' (by decide)

theorem interarrivals_built {F : Type} [CMath F] {atof : List Char → F} {memory memory' : List Char} {optarg : Nat}
    {gen : RandGen F} (built : initRand atof memory optarg = .next (some gen,memory')) :
    interarrivals atof memory optarg = .next (some gen,some gen) ↔
      ∃ memory'', initRand atof memory' optarg = .next (some gen,memory'') := by
  rw [interarrivals,built]
  constructor
  · intro both
    rw [Outcome.next_bind] at both
    obtain ⟨⟨referenceIaGen,memory''⟩,again,returned⟩ := Outcome.bind_next both
    cases returned
    exact ⟨memory'',again⟩
  · rintro ⟨memory'',again⟩
    simp only [Outcome.next_bind,again]
    rfl

/-- For a specification that gives a generator, the reference is the same one exactly when what
the first call cuts off makes no difference. -/
theorem same_reference_iff {F : Type} [CMath F] {atof : List Char → F} {memory memory' : List Char} {optarg : Nat}
    {text : List Char} {gen : RandGen F} (held : At memory optarg text)
    (built : initRand atof memory optarg = .next (some gen,memory')) :
    interarrivals atof memory optarg = .next (some gen,some gen) ↔ SameAgain atof text :=
  (interarrivals_built built).trans (second_init_iff held built)

/-- `atof` on whole numbers. -/
def wholeAtof (text : List Char) : Float := CDouble.ofInt (strtol text)

/-- `atof` on plain decimals. -/
def decimalAtof (text : List Char) : Float :=
  let fraction := (text.dropWhile (· ≠ '.')).drop 1
  OfScientific.ofScientific (strtol (text.takeWhile (· ≠ '.') ++ fraction)).toNat true fraction.length

def fbInterarrivals : RandGen Float :=
  gparInit (decimalAtof "0".toList,decimalAtof "16.0292".toList,decimalAtof "0.154971".toList)

theorem same_reference_fb_ia :
    interarrivals decimalAtof ("fb_ia".toList ++ [nul]) 0 = .next (some fbInterarrivals,some fbInterarrivals) := by
  have again : SameAgain decimalAtof "fb_ia".toList := by
    rw [SameAgain,if_neg (by decide),if_neg (by decide)]
    decide
  exact (@same_reference_iff Float _ decimalAtof ("fb_ia".toList ++ [nul]) ("fb_ia".toList ++ [nul]) 0 "fb_ia".toList fbInterarrivals
    ⟨by decide,[],rfl⟩ rfl).mpr again

/-- The first call takes the Pareto parameters, the second one reads past them. -/
theorem pareto_reference_crashes : (∃ memory, initRand wholeAtof ("pareto:5:16:2".toList ++ [nul]) 0 =
      .next (some (gparInit (wholeAtof "5".toList,wholeAtof "16".toList,wholeAtof "2".toList)),memory)) ∧
    interarrivals wholeAtof ("pareto:5:16:2".toList ++ [nul]) 0 = .fault :=
  ⟨⟨_,rfl⟩,rfl⟩

end Lancet.ReferenceSpec
