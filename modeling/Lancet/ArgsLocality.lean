import Lancet.Args
import Lancet.ReferenceSpec

/-! The options do not disturb each other: each reader stays in the string of its own argument,
so that a command line means what its arguments mean one by one. -/
namespace Lancet.ArgsLocality
open Foundation CString Locality RandGen TargetList ReferenceSpec Args

section Parameters
variable {F : Type} {atof : List Char → F}

theorem token_inside {pre post : List Char} {size start : Nat} {cut : Cut} (proper : Proper size cut) (token : cut.token = some start) :
    (placed pre post cut).token = some (pre.length + start) ∧
      str (placed pre post cut).memory (pre.length + start) = str cut.memory start := by
  have inner : start < cut.memory.length := proper.length ▸ proper.token start token
  exact ⟨by rw [placed,token]; rfl,str_inside pre post proper.closed inner⟩

theorem strtokR_placed (delim : Char) (pre post : List Char) {size : Nat} {cut : Cut} (proper : Proper size cut) :
    strtokR delim (placed pre post cut).memory (placed pre post cut).save = placed pre post (strtokR delim cut.memory cut.save) ∧
      Proper size (strtokR delim cut.memory cut.save) := by
  have inner : cut.save < cut.memory.length := proper.length ▸ proper.save
  obtain ⟨same,proper'⟩ := strtokR_inside delim pre post proper.closed inner
  exact ⟨same,proper.length ▸ proper'⟩

theorem nextParam_placed (atof : List Char → F) (pre post : List Char) {size : Nat} {cut : Cut} (proper : Proper size cut) :
    (∃ value cut', nextParam atof cut = .next (value,cut') ∧
      nextParam atof (placed pre post cut) = .next (value,placed pre post cut') ∧ Proper size cut') ∨
    nextParam atof cut = .fault ∧ nextParam atof (placed pre post cut) = .fault := by
  obtain ⟨same,proper'⟩ := strtokR_placed ':' pre post proper
  rw [nextParam,nextParam,same]
  generalize strtokR ':' cut.memory cut.save = next at proper'
  rcases token : next.token with _ | start
  · exact .inr ⟨rfl,by rw [placed,token]; rfl⟩
  · obtain ⟨found,text⟩ := @token_inside pre post size start next proper' token
    refine .inl ⟨_,next,rfl,?_,proper'⟩
    rw [found]
    dsimp only
    rw [text]

theorem parseParam2_local : Local (parseParam2 atof) := by
  refine .of_cases fun pre post block index closed inner _ => ?_
  obtain ⟨same,proper⟩ := strtokR_inside ':' pre post closed inner
  rw [parseParam2,parseParam2,same]
  rcases nextParam_placed atof pre post proper with ⟨a,cut,first,first',proper⟩ | ⟨first,first'⟩
  · rw [first,first',Outcome.next_bind,Outcome.next_bind]
    dsimp only
    rcases nextParam_placed atof pre post proper with ⟨b,cut',second,second',proper⟩ | ⟨second,second'⟩
    · rw [second,second']
      exact .inl ⟨_,_,rfl,rfl,proper.closed,proper.length⟩
    · rw [second,second']
      exact .inr ⟨rfl,rfl⟩
  · rw [first,first']
    exact .inr ⟨rfl,rfl⟩

theorem parseParam3_local : Local (parseParam3 atof) := by
  refine .of_cases fun pre post block index closed inner _ => ?_
  obtain ⟨same,proper⟩ := strtokR_inside ':' pre post closed inner
  rw [parseParam3,parseParam3,same]
  rcases nextParam_placed atof pre post proper with ⟨a,cut,first,first',proper⟩ | ⟨first,first'⟩
  · rw [first,first',Outcome.next_bind,Outcome.next_bind]
    dsimp only
    rcases nextParam_placed atof pre post proper with ⟨b,cut',second,second',proper⟩ | ⟨second,second'⟩
    · rw [second,second',Outcome.next_bind,Outcome.next_bind]
      dsimp only
      rcases nextParam_placed atof pre post proper with ⟨c,cut'',third,third',proper⟩ | ⟨third,third'⟩
      · rw [third,third']
        exact .inl ⟨_,_,rfl,rfl,proper.closed,proper.length⟩
      · rw [third,third']
        exact .inr ⟨rfl,rfl⟩
    · rw [second,second']
      exact .inr ⟨rfl,rfl⟩
  · rw [first,first']
    exact .inr ⟨rfl,rfl⟩

end Parameters
section Generators
variable {F : Type} [CMath F] {atof : List Char → F}

theorem param1_local {init : F → RandGen F} : Local (fun memory pointer =>
    (.next (some (init (parseParam1 atof memory pointer).1),(parseParam1 atof memory pointer).2) : Outcome (Option (RandGen F) × List Char))) := by
  refine .of_cases fun pre post block index closed inner _ => .inl ?_
  obtain ⟨same,proper⟩ := strtokR_inside ':' pre post closed inner
  obtain ⟨same',proper'⟩ := strtokR_placed ':' pre post proper
  rw [parseParam1,parseParam1,same,same']
  generalize strtokR ':' (strtokR ':' block index).memory (strtokR ':' block index).save = next at proper'
  rcases token : next.token with _ | start
  · refine ⟨_,_,rfl,?_,proper'.closed,proper'.length⟩
    rw [placed,token]
    rfl
  · obtain ⟨found,text⟩ := @token_inside pre post _ start next proper' token
    refine ⟨_,_,rfl,?_,proper'.closed,proper'.length⟩
    rw [found]
    dsimp only
    rw [text]
    rfl

/-- The reader of a generator stays in its specification. -/
theorem initRand_local : Local (initRand atof) := by
  have preset (init : F × F × F → RandGen F) (type : List Char) : Local (fun memory _ => do
      let gen ← initFrom atof init type
      return (some gen,memory)) := local_value (initFrom atof init type) some
  refine local_choice (fun text => startsWith "fixed".toList text = true) (LocalOn.restrict (@param1_local F _ atof fixedInit)) ?_
  refine local_choice (fun text => startsWith "exp".toList text = true) (LocalOn.restrict (@param1_local F _ atof expInit)) ?_
  refine local_choice (fun text => startsWith "pareto".toList text = true) (.restrict (parseParam3_local.convert fun param => some (gparInit param))) ?_
  refine local_choice (fun text => startsWith "gev".toList text = true) (.restrict (parseParam3_local.convert fun param => some (gevInit param))) ?_
  refine local_choice (fun text => text = "fb_key".toList) (.restrict (preset gevInit _)) ?_
  refine local_choice (fun text => text = "fb_ia".toList) (.restrict (preset gparInit _)) ?_
  refine local_choice (fun text => text = "fb_val".toList) (.restrict (preset gparInit _)) ?_
  refine local_choice (fun text => startsWith "bimodal".toList text = true) (.restrict (parseParam3_local.convert fun param => some (bimodalInit param))) ?_
  refine local_choice (fun text => startsWith "lognorm".toList text = true) (.restrict (parseParam2_local.convert fun param => some (lognormalInit param))) ?_
  refine local_choice (fun text => startsWith "gamma".toList text = true) (.restrict (parseParam2_local.bind fun _ => local_fault)) ?_
  exact local_value (.next none) id

end Generators
section Protocols

theorem echoInit_local {F : Type} : Local (@echoInit F) := by
  refine .of_cases fun pre post block index closed inner _ => ?_
  obtain ⟨same,proper⟩ := strtokR_inside ':' pre post closed inner
  obtain ⟨same',proper'⟩ := strtokR_placed ':' pre post proper
  rw [echoInit,echoInit,same,same']
  generalize strtokR ':' (strtokR ':' block index).memory (strtokR ':' block index).save = next at proper'
  rcases token : next.token with _ | start
  · refine .inr ⟨rfl,?_⟩
    rw [placed,token]
    rfl
  · obtain ⟨found,text⟩ := @token_inside pre post _ start next proper' token
    rw [found]
    dsimp only
    rw [text]
    by_cases positive : 0 ≤ atoi (str next.memory start)
    · rw [decide_eq_true positive,Outcome.assert_true,Outcome.next_bind,Outcome.next_bind]
      exact .inl ⟨_,_,rfl,rfl,proper'.closed,proper'.length⟩
    · rw [decide_eq_false positive,Outcome.assert_false]
      exact .inr ⟨rfl,rfl⟩

variable {F : Type} [CMath F] {atof : List Char → F}

theorem syntheticInit_local : Local (syntheticInit atof) where
  inside pre post block index closed inner _ := by
    obtain ⟨same,proper⟩ := strtokR_inside ':' pre post closed inner
    rw [syntheticInit,syntheticInit,same]
    generalize strtokR ':' block index = first at proper
    have behind : first.save < first.memory.length := proper.length ▸ proper.save
    have text : str (placed pre post first).memory (placed pre post first).save = str first.memory first.save :=
      str_inside pre post proper.closed behind
    have read : initRand atof (placed pre post first).memory (placed pre post first).save =
        putBack pre post (initRand atof first.memory first.save) := initRand_local.inside pre post proper.closed behind trivial
    rw [text,read]
    split
    next => rfl
    next => rcases initRand atof first.memory first.save with ⟨_ | gen,block'⟩ | _ | _ <;> rfl
  keeps closed inner _ made := by
    obtain ⟨-,proper⟩ := strtokR_inside ':' [] [] closed inner
    rw [syntheticInit] at made
    split at made
    next => cases made
    next =>
      obtain ⟨⟨gen,block'⟩,ran,made⟩ := Outcome.bind_next made
      obtain ⟨closed',length⟩ := initRand_local.keeps proper.closed (proper.length ▸ proper.save) trivial ran
      cases gen with
      | none => cases made
      | some gen =>
        cases made
        exact ⟨closed',length.trans proper.length⟩

/-- The service needs something behind its name: one character more than that is skipped. -/
theorem asciiMemSvcInit_local : LocalOn (fun text => 14 ≤ text.length) (asciiMemSvcInit atof) where
  inside pre post block index closed inner long := by
    have behind : index + 14 < block.length := Nat.lt_of_le_of_lt (Nat.add_le_add_left long index) (str_length closed inner)
    rw [asciiMemSvcInit,asciiMemSvcInit,Nat.add_assoc,initRand_local.inside pre post closed behind trivial]
    rcases initRand atof block (index + 14) with ⟨gen,block'⟩ | _ | _ <;> rfl
  keeps closed inner long made := by
    have behind := Nat.lt_of_le_of_lt (Nat.add_le_add_left long _) (str_length closed inner)
    obtain ⟨⟨gen,block'⟩,ran,made⟩ := Outcome.bind_next made
    cases made
    exact initRand_local.keeps closed behind trivial ran

/-- What a prefix is short of. -/
theorem longer {kind text : List Char} (starts : startsWith kind text = true) (other : text ≠ kind) : kind.length + 1 ≤ text.length := by
  obtain ⟨rest,rfl⟩ := List.isPrefixOf_iff_prefix.mp starts
  cases rest with
  | nil => exact absurd (List.append_nil kind) other
  | cons first rest =>
    rw [List.length_append,List.length_cons]
    omega

/-- The reader of a protocol stays in its text, unless that is the bare name of the service. -/
theorem initAppProto_local : LocalOn (fun text => text ≠ "ascii-mem-svc".toList) (initAppProto atof) := by
  refine local_choice (fun text => startsWith "echo".toList text = true) (.restrict (echoInit_local.convert some)) ?_
  refine local_choice (fun text => startsWith "synthetic".toList text = true) (.restrict (syntheticInit_local.convert some)) ?_
  refine local_choice (fun text => startsWith "ascii-mem-svc".toList text = true) ((asciiMemSvcInit_local.weaken ?_).convert some) ?_
  · exact fun text both => longer both.2 both.1
  · refine local_choice (fun text => startsWith "ascii-mem".toList text = true) ?_ ?_
    · exact .restrict (local_value (.next ApplicationProtocol.asciiMemcached) (some : _ → Option (ApplicationProtocol F)))
    · exact .restrict (local_value (.next none) id)

end Protocols
section Targets
variable {pre post : List Char}

/-- The targets read so far, with their block in its memory. -/
def held (pre post : List Char) (parsing : TargetList.Parsing) : TargetList.Parsing :=
  {parsing with memory := pre ++ (parsing.memory ++ post)}

theorem addTarget_held (pre post : List Char) (parsing : TargetList.Parsing) {token1 : Nat} (closed : Closed parsing.memory)
    (inner : token1 < parsing.memory.length) :
    addTarget (held pre post parsing) (pre.length + token1) =
        (held pre post (addTarget parsing token1).1,(addTarget parsing token1).2) ∧
      Closed (addTarget parsing token1).1.memory ∧ (addTarget parsing token1).1.memory.length = parsing.memory.length := by
  obtain ⟨same,proper⟩ := strtokR_inside ':' pre post closed inner
  rw [addTarget,addTarget,held,same]
  generalize strtokR ':' parsing.memory token1 = first at proper
  rcases token : first.token with _ | start
  · refine ⟨?_,proper.closed,proper.length⟩
    rw [placed,token]
    rfl
  · obtain ⟨found,text⟩ := @token_inside pre post _ start first proper token
    obtain ⟨same',proper'⟩ := strtokR_placed ':' pre post proper
    rw [found]
    dsimp only
    rw [text,same']
    generalize strtokR ':' first.memory first.save = second at proper'
    rcases token' : second.token with _ | start'
    · refine ⟨?_,proper'.closed,proper'.length⟩
      rw [placed,token']
      rfl
    · obtain ⟨found',text'⟩ := @token_inside pre post _ start' second proper' token'
      rw [found']
      dsimp only
      rw [text']
      exact ⟨rfl,proper'.closed,proper'.length⟩

theorem targetLoop_held (pre post : List Char) (passes : Nat) (parsing : TargetList.Parsing) {optarg : Nat}
    (closed : Closed parsing.memory) (inner : optarg < parsing.memory.length) :
    targetLoop passes (held pre post parsing) (pre.length + optarg) =
        (held pre post (targetLoop passes parsing optarg).1,(targetLoop passes parsing optarg).2) ∧
      Closed (targetLoop passes parsing optarg).1.memory ∧
      (targetLoop passes parsing optarg).1.memory.length = parsing.memory.length := by
  induction passes generalizing parsing optarg with
  | zero => exact ⟨rfl,closed,rfl⟩
  | succ passes ih =>
    obtain ⟨same,proper⟩ := strtokR_inside ',' pre post closed inner
    rw [targetLoop,targetLoop,held,same]
    generalize strtokR ',' parsing.memory optarg = next at proper
    rcases token : next.token with _ | start
    · refine ⟨?_,proper.closed,proper.length⟩
      rw [placed,token]
      rfl
    · obtain ⟨found,-⟩ := @token_inside pre post _ start next proper token
      have first : start < next.memory.length := proper.length ▸ proper.token start token
      obtain ⟨added,closed',length⟩ := addTarget_held pre post {parsing with memory := next.memory} proper.closed first
      rw [found]
      dsimp only
      have moved : {parsing with memory := (placed pre post next).memory} = held pre post {parsing with memory := next.memory} := rfl
      rw [moved,added]
      generalize addTarget {parsing with memory := next.memory} start = result at closed' length
      obtain ⟨parsing',_ | ending⟩ := result
      · have behind : next.save < parsing'.memory.length := by
          rw [length,proper.length]
          exact proper.save
        obtain ⟨rest,closed'',length'⟩ := ih parsing' closed' behind
        refine ⟨rest,closed'',length'.trans (length.trans proper.length)⟩
      · exact ⟨rfl,closed',length.trans proper.length⟩

end Targets
section Options
variable {F : Type} [CMath F] {atof : List Char → F}

/-- The variables with the block of an argument in its memory. -/
def within (pre post : List Char) (parsing : Args.Parsing F) : Args.Parsing F :=
  {parsing with memory := pre ++ (parsing.memory ++ post)}

/-- An option reads its argument in the same way wherever it stands. -/
theorem readOption_within (pre post : List Char) (letter : Char) {parsing : Args.Parsing F} {optarg : Nat}
    (closed : Closed parsing.memory) (inner : optarg < parsing.memory.length)
    (named : letter = 'r' → str parsing.memory optarg ≠ "ascii-mem-svc".toList) :
    (readOption atof letter (within pre post parsing) (pre.length + optarg) = do
        let result ← readOption atof letter parsing optarg
        return result.map (within pre post)) ∧
      ∀ parsing', readOption atof letter parsing optarg = .next (some parsing') → parsing'.memory.length = parsing.memory.length := by
  have text : str (within pre post parsing).memory (pre.length + optarg) = str parsing.memory optarg :=
    str_inside pre post closed inner
  unfold readOption
  dsimp only
  rw [text]
  split
  next =>
    refine ⟨rfl,fun parsing' read => ?_⟩
    cases read
    rfl
  next =>
    obtain ⟨read,-,length⟩ := targetLoop_held pre post 4097 ⟨parsing.memory,parsing.cfg.targets,parsing.sinAddr⟩ closed inner
    have moved : (⟨(within pre post parsing).memory,(within pre post parsing).cfg.targets,(within pre post parsing).sinAddr⟩ :
        TargetList.Parsing) = held pre post ⟨parsing.memory,parsing.cfg.targets,parsing.sinAddr⟩ := rfl
    rw [readTargets,readTargets,moved,read]
    generalize targetLoop 4097 ⟨parsing.memory,parsing.cfg.targets,parsing.sinAddr⟩ optarg = result at length
    obtain ⟨parsing₁,_ | _ | _ | _⟩ := result
    · refine ⟨rfl,fun parsing' done => ?_⟩
      cases done
      exact length
    all_goals exact ⟨rfl,fun parsing' done => nomatch done⟩
  next =>
    refine ⟨rfl,fun parsing' read => ?_⟩
    cases read
    rfl
  next =>
    refine ⟨?_,fun parsing' read => ?_⟩
    · rcases agentTypeOf (atoi (str parsing.memory optarg)) with _ | atype <;> rfl
    · obtain ⟨atype,-,rfl⟩ := Option.map_eq_some_iff.mp (Outcome.next.inj read)
      rfl
  next =>
    refine ⟨?_,fun parsing' read => ?_⟩
    · rcases transportOf (str parsing.memory optarg) with _ | tpType <;> rfl
    · obtain ⟨tpType,-,rfl⟩ := Option.map_eq_some_iff.mp (Outcome.next.inj read)
      rfl
  next =>
    have first := (@initRand_local F _ atof).inside pre post closed inner trivial
    rw [readInterarrivals,readInterarrivals,within,first]
    rcases ran : initRand atof parsing.memory optarg with ⟨idist,block⟩ | _ | _
    · obtain ⟨closed',length⟩ := initRand_local.keeps closed inner trivial ran
      have second := (@initRand_local F _ atof).inside pre post closed' (length ▸ inner) trivial
      rw [putBack_next,Outcome.next_bind,Outcome.next_bind]
      dsimp only
      rw [second]
      rcases ran' : initRand atof block optarg with ⟨referenceIaGen,block'⟩ | _ | _
      · obtain ⟨-,length'⟩ := initRand_local.keeps closed' (length ▸ inner) trivial ran'
        cases idist with
        | none => exact ⟨rfl,fun parsing' read => nomatch read⟩
        | some gen =>
          refine ⟨rfl,fun parsing' read => ?_⟩
          cases read
          exact length'.trans length
      all_goals exact ⟨rfl,fun parsing' read => nomatch read⟩
    all_goals exact ⟨rfl,fun parsing' read => nomatch read⟩
  next =>
    have read := (@initAppProto_local F _ atof).inside pre post closed inner (named rfl)
    rw [readAppProto,readAppProto,within,read]
    rcases ran : initAppProto atof parsing.memory optarg with ⟨_ | app,block⟩ | _ | _
    · exact ⟨rfl,fun parsing' read => nomatch read⟩
    · obtain ⟨-,length⟩ := initAppProto_local.keeps closed inner (named rfl) ran
      refine ⟨rfl,fun parsing' read => ?_⟩
      cases read
      exact length
    all_goals exact ⟨rfl,fun parsing' read => nomatch read⟩
  next => exact ⟨rfl,fun parsing' read => nomatch read⟩

/-- The options with a word for each letter and one for its argument. -/
def optionWords : List (Char × List Char) → List (List Char)
  | [] => []
  | (letter,value) :: options => ['-',letter] :: value :: optionWords options

/-- The configuration with every argument read from a copy of its own. -/
def readEach (atof : List Char → F) (cfg : AgentConfig F) (sinAddr : UInt32) : List (Char × List Char) → Outcome (Option (AgentConfig F))
  | [] => .next (finish ⟨cfg,sinAddr,[]⟩)
  | (letter,value) :: options => do
    match ← readOption atof letter ⟨cfg,sinAddr,value ++ [nul]⟩ 0 with
    | none => return none
    | some parsing => readEach atof parsing.cfg parsing.sinAddr options

/-- An option of an agent and an argument that is a string of C. -/
structure Given (option : Char × List Char) : Prop where
  letter : option.1 ∈ optionLetters
  plain : nul ∉ option.2
  named : option.1 = 'r' → option.2 ≠ "ascii-mem-svc".toList

theorem wordOf_letter {letter : Char} (known : letter ∈ optionLetters) : wordOf ['-',letter] = .separate letter := by
  simp only [optionLetters,List.mem_cons,List.not_mem_nil,or_false] at known
  rcases known with rfl | rfl | rfl | rfl | rfl | rfl | rfl <;> rfl

theorem str_letter {letter : Char} (known : letter ∈ optionLetters) (pre rest : List Char) :
    str ((pre ++ ['-',letter,nul]) ++ rest) pre.length = ['-',letter] := by
  have plain : nul ∉ ['-',letter] := by
    simp only [optionLetters,List.mem_cons,List.not_mem_nil,or_false] at known
    rcases known with rfl | rfl | rfl | rfl | rfl | rfl | rfl <;> decide
  refine At.str_eq ⟨plain,rest,?_⟩
  rw [List.append_assoc,List.drop_left]
  rfl

theorem scanned_letter {letter : Char} (known : letter ∈ optionLetters) (pre rest : List Char) :
    wordOf (str ((pre ++ ['-',letter,nul]) ++ rest) pre.length) = .separate letter := by
  rw [str_letter known,wordOf_letter known]

/-- The word of a letter stands before the block of its argument. -/
theorem argvMemory_option (pre environment : List Char) (letter : Char) (value : List Char) (options : List (Char × List Char)) :
    pre ++ (argvMemory (optionWords ((letter,value) :: options)) ++ environment) =
      (pre ++ ['-',letter,nul]) ++ ((value ++ [nul]) ++ (argvMemory (optionWords options) ++ environment)) := by
  simp [optionWords,argvMemory]

theorem optionLoop_separate {parsing : Args.Parsing F} {word : Nat} {letter : Char}
    (scanned : wordOf (str parsing.memory word) = .separate letter) (optarg : Nat) (rest : List Nat) :
    optionLoop atof parsing (word :: optarg :: rest) = (do
      match ← readOption atof letter parsing optarg with
      | none => return none
      | some parsing => optionLoop atof parsing rest) := by
  rw [optionLoop.eq_def]
  dsimp only
  rewrite [scanned]
  rfl

theorem optionLoop_each (options : List (Char × List Char)) (given : ∀ option ∈ options, Given option) (cfg : AgentConfig F)
    (sinAddr : UInt32) (pre environment : List Char) :
    optionLoop atof ⟨cfg,sinAddr,pre ++ (argvMemory (optionWords options) ++ environment)⟩
      (argvPointers pre.length (optionWords options)) = readEach atof cfg sinAddr options := by
  induction options generalizing cfg sinAddr pre with
  | nil => rfl
  | cons option options ih =>
    obtain ⟨letter,value⟩ := option
    obtain ⟨known,plain,named⟩ := given (letter,value) List.mem_cons_self
    have others := fun option member => given option (List.mem_cons_of_mem _ member)
    have text : str (value ++ [nul]) 0 = value := At.str_eq ⟨plain,[],rfl⟩
    have inner : 0 < (value ++ [nul]).length := by simp
    have here : (pre ++ ['-',letter,nul]).length + 0 = pre.length + (['-',letter].length + 1) := List.length_append
    obtain ⟨read,keeps⟩ := @readOption_within F _ atof (pre ++ ['-',letter,nul]) (argvMemory (optionWords options) ++ environment) letter
      ⟨cfg,sinAddr,value ++ [nul]⟩ 0 (closed_text value) inner (fun service => text.symm ▸ named service)
    rw [here] at read
    rw [within] at read
    have scanned := scanned_letter known pre ((value ++ [nul]) ++ (argvMemory (optionWords options) ++ environment))
    rw [argvMemory_option,optionWords,argvPointers,argvPointers,optionLoop_separate scanned,read,readEach]
    rcases ran : readOption atof letter ⟨cfg,sinAddr,value ++ [nul]⟩ 0 with (_ | parsing) | _ | _
    · rfl
    · have rest := ih others parsing.cfg parsing.sinAddr ((pre ++ ['-',letter,nul]) ++ parsing.memory)
      have length := keeps parsing ran
      have behind : ((pre ++ ['-',letter,nul]) ++ parsing.memory).length =
          pre.length + (['-',letter].length + 1) + (value.length + 1) := by
        rw [List.length_append,length,← here]
        simp
      rw [behind,List.append_assoc] at rest
      exact rest
    · rfl
    · rfl

/-- Every argument is read as if it were alone in the memory. -/
theorem options_read_alone (atof : List Char → F) {options : List (Char × List Char)} (given : ∀ option ∈ options, Given option)
    (name environment : List Char) (sinAddr : UInt32) :
    started atof name (optionWords options) environment sinAddr = readEach atof .zero sinAddr options :=
  optionLoop_each options given _ _ _ _

theorem options_read_alone_twice :
    started wholeAtof "agent".toList (optionWords [('s',"10.0.0.1:80,10.0.0.2:81".toList),('r',"synthetic:exp:5".toList),('s',"10.0.0.3:82".toList)])
        "HOME=/".toList 0 =
      readEach wholeAtof .zero 0 [('s',"10.0.0.1:80,10.0.0.2:81".toList),('r',"synthetic:exp:5".toList),('s',"10.0.0.3:82".toList)] :=
  options_read_alone wholeAtof (List.forall_mem_cons.mpr ⟨⟨by decide,by decide,fun service => by cases service⟩,
    List.forall_mem_cons.mpr ⟨⟨by decide,by decide,fun _ => by decide⟩,
      List.forall_mem_cons.mpr ⟨⟨by decide,by decide,fun service => by cases service⟩,fun _ listed => by cases listed⟩⟩⟩) _ _ _

-- the name of the service alone is read on behind its end
example : started wholeAtof "agent".toList ["-r".toList,"ascii-mem-svc".toList,"exp".toList] [] 0 =
    .next (some {AgentConfig.zero with appProto := some (.asciiMemcachedSvc (some (expInit (CDouble.ofInt 0))))}) := rfl

end Options
end Lancet.ArgsLocality
