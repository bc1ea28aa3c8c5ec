import Lancet.ArgsLocality
import Lancet.ReferenceSpec
import Lancet.Foundation.Printing

/-! The command lines that the coordinator starts its agents with (main.go). They pass through a
shell, which cuts them at the blanks; an agent reads from them what the coordinator was given. -/
namespace Lancet.CommandLine
open Foundation CString Printing Locality RandGen TargetList ReferenceSpec Args ArgsLocality

structure ServerConfig where
  target : List Char
  thThreads : Int
  ltThreads : Int
  thConn : Int
  ltConn : Int
  idist : List Char
  appProto : List Char
  comProto : List Char

/-- `fmt.Sprintf("-s %s -t %d -c %d -i %s -p %s -r %s -a %d", ...)` -/
def agentArgs (server : ServerConfig) (threads conn aType : Int) : List Char :=
  "-s ".toList ++ server.target ++ " -t ".toList ++ decimalInt threads ++ " -c ".toList ++ decimalInt conn ++
    " -i ".toList ++ server.idist ++ " -p ".toList ++ server.comProto ++ " -r ".toList ++ server.appProto ++
    " -a ".toList ++ decimalInt aType

inductive Role where
  | throughput
  | latency
  | symmetric (nicTS : Bool)
  deriving DecidableEq, Repr

namespace Role

def threads (server : ServerConfig) : Role → Int
  | .throughput | .symmetric _ => server.thThreads
  | .latency => server.ltThreads

def conn (server : ServerConfig) : Role → Int
  | .throughput | .symmetric _ => server.thConn
  | .latency => server.ltConn

def number : Role → Int
  | .throughput => 0
  | .latency => 1
  | .symmetric nicTS => if nicTS then 2 else 3

def args (server : ServerConfig) (role : Role) : List Char := agentArgs server (role.threads server) (role.conn server) role.number

/-- What the agent is to be. -/
def agentType : Role → Agent.AgentType
  | .throughput => .throughputAgent
  | .latency => .latencyAgent
  | .symmetric nicTS => if nicTS then .symmetricNicTimestampAgent else .symmetricAgent

end Role

/-- The characters that mean nothing to a shell. -/
def plainChar (char : Char) : Bool := char.isAlphanum || char ∈ ['.',':',',','_','-','/']

structure Plain (word : List Char) : Prop where
  nonempty : word ≠ []
  chars : ∀ char ∈ word, plainChar char = true

/-- A shell hands plain words on as they are. -/
def Splits (shell : List Char → List (List Char)) : Prop :=
  ∀ words, (∀ word ∈ words, Plain word) → shell ([' '].intercalate words) = words

/-- Cutting at the blanks is what a shell does, as far as it matters here. -/
theorem tokens_splits : Splits (tokens ' ') := by
  intro words plain
  have free : ∀ word, Plain word → ' ' ∉ word := fun word plain inside => absurd (plain.chars ' ' inside) (by decide)
  induction words with
  | nil => rfl
  | cons word words ih =>
    obtain ⟨here,later⟩ := List.forall_mem_cons.mp plain
    cases words with
    | nil => rw [List.intercalate_singleton,tokens_single here.nonempty (free word here)]
    | cons next words =>
      have rest := ih later
      rw [List.intercalate_cons_cons,List.append_assoc,List.singleton_append,tokens_part here.nonempty (free word here),rest]

structure ServerConfig.Plain (server : ServerConfig) : Prop where
  target : CommandLine.Plain server.target
  idist : CommandLine.Plain server.idist
  appProto : CommandLine.Plain server.appProto
  comProto : CommandLine.Plain server.comProto

/-- The options of an agent in their order. -/
def options (server : ServerConfig) (threads conn aType : Int) : List (Char × List Char) :=
  [('s',server.target),('t',decimalInt threads),('c',decimalInt conn),('i',server.idist),('p',server.comProto),
    ('r',server.appProto),('a',decimalInt aType)]

section Words
variable {server : ServerConfig}

theorem joined_last (letter : Char) (value : List Char) :
    [' '].intercalate (optionWords [(letter,value)]) = '-' :: letter :: ' ' :: value := by
  rw [optionWords,optionWords,List.intercalate_cons_cons,List.intercalate_singleton]
  rfl

theorem joined_more (letter : Char) (value : List Char) (option : Char × List Char) (more : List (Char × List Char)) :
    [' '].intercalate (optionWords ((letter,value) :: option :: more)) =
      '-' :: letter :: ' ' :: (value ++ ' ' :: [' '].intercalate (optionWords (option :: more))) := by
  rw [optionWords,List.intercalate_cons_cons,optionWords,List.intercalate_cons_cons]
  simp

theorem args_words (server : ServerConfig) (threads conn aType : Int) :
    agentArgs server threads conn aType = [' '].intercalate (optionWords (options server threads conn aType)) := by
  have first : "-s ".toList = ['-','s',' '] := rfl
  have t : " -t ".toList = [' ','-','t',' '] := rfl
  have c : " -c ".toList = [' ','-','c',' '] := rfl
  have i : " -i ".toList = [' ','-','i',' '] := rfl
  have p : " -p ".toList = [' ','-','p',' '] := rfl
  have r : " -r ".toList = [' ','-','r',' '] := rfl
  have a : " -a ".toList = [' ','-','a',' '] := rfl
  rw [options,joined_more,joined_more,joined_more,joined_more,joined_more,joined_more,joined_last]
  unfold agentArgs
  simp only [first,t,c,i,p,r,a]
  simp only [List.append_assoc,List.cons_append,List.nil_append]

theorem digit_plain {char : Char} (digit : char.isDigit = true) : plainChar char = true := by
  simp [plainChar,Char.isAlphanum,digit]

theorem decimalInt_plain (value : Int) : Plain (decimalInt value) := by
  cases value with
  | ofNat number => exact ⟨Nat.toDigits_ne_nil,fun char inside => digit_plain (toDigits_digits number char inside)⟩
  | negSucc number =>
    refine ⟨List.cons_ne_nil _ _,fun char inside => ?_⟩
    rcases List.mem_cons.mp inside with rfl | digit
    · rfl
    · exact digit_plain (toDigits_digits (number + 1) char digit)

theorem letter_plain {letter : Char} (known : letter ∈ optionLetters) : Plain ['-',letter] := by
  simp only [optionLetters,List.mem_cons,List.not_mem_nil,or_false] at known
  refine ⟨List.cons_ne_nil _ _,List.all_eq_true.mp ?_⟩
  rcases known with rfl | rfl | rfl | rfl | rfl | rfl | rfl <;> rfl

theorem optionWords_plain {given : List (Char × List Char)} (known : ∀ option ∈ given, option.1 ∈ optionLetters ∧ Plain option.2) :
    ∀ word ∈ optionWords given, Plain word := by
  induction given with
  | nil => exact fun word listed => absurd listed List.not_mem_nil
  | cons option given ih =>
    obtain ⟨letter,value⟩ := option
    obtain ⟨here,later⟩ := List.forall_mem_cons.mp known
    intro word inside
    rcases List.mem_cons.mp inside with rfl | inside
    · exact letter_plain here.1
    · rcases List.mem_cons.mp inside with rfl | inside
      · exact here.2
      · exact ih later word inside

theorem options_plain (plain : server.Plain) (threads conn aType : Int) :
    ∀ option ∈ options server threads conn aType, option.1 ∈ optionLetters ∧ Plain option.2 := by
  simp only [options,List.forall_mem_cons]
  refine ⟨⟨by decide,plain.target⟩,⟨by decide,decimalInt_plain _⟩,⟨by decide,decimalInt_plain _⟩,⟨by decide,plain.idist⟩,
    ⟨by decide,plain.comProto⟩,⟨by decide,plain.appProto⟩,⟨by decide,decimalInt_plain _⟩,?_⟩
  exact fun option listed => absurd listed List.not_mem_nil

theorem Plain.no_nul {word : List Char} (plain : Plain word) : nul ∉ word := fun inside => absurd (plain.chars nul inside) (by decide)

/-- A started agent reads every argument as if it were the only one. -/
theorem started_each {F : Type} [CMath F] {atof : List Char → F} {shell : List Char → List (List Char)} (splits : Splits shell)
    (plain : server.Plain) (named : server.appProto ≠ "ascii-mem-svc".toList) (role : Role) (name environment : List Char) (sinAddr : UInt32) :
    started atof name (shell (role.args server)) environment sinAddr =
      readEach atof .zero sinAddr (options server (role.threads server) (role.conn server) role.number) := by
  have known := options_plain plain (role.threads server) (role.conn server) role.number
  rw [Role.args,args_words,splits _ (optionWords_plain known),started,parseArguments]
  refine optionLoop_each _ (fun option inside => ⟨(known option inside).1,(known option inside).2.no_nul,fun service => ?_⟩) _ _ _ _
  simp only [options,List.mem_cons,List.not_mem_nil,or_false] at inside
  rcases inside with rfl | rfl | rfl | rfl | rfl | rfl | rfl
  all_goals first | exact named | cases service

end Words
section Readings
variable {F : Type} [CMath F] {atof : List Char → F} {cfg : AgentConfig F} {sinAddr : UInt32}

theorem readEach_next {letter : Char} {value : List Char} {parsing : Args.Parsing F}
    (read : readOption atof letter ⟨cfg,sinAddr,value ++ [nul]⟩ 0 = .next (some parsing)) (options : List (Char × List Char)) :
    readEach atof cfg sinAddr ((letter,value) :: options) = readEach atof parsing.cfg parsing.sinAddr options := by
  rw [readEach,read]
  rfl

theorem str_alone {value : List Char} (plain : nul ∉ value) : str (value ++ [nul]) 0 = value := At.str_eq ⟨plain,[],rfl⟩

theorem atoi_decimalInt {value : Int} (range : -2^63 ≤ value ∧ value < 2^63) :
    atoi (str (decimalInt value ++ [nul]) 0) = value.bmod (2^32) := by
  rw [str_alone (decimalInt_plain value).no_nul,atoi,strtol_decimalInt range]

/-- A list of targets that is of the grammar is taken whole. -/
theorem reads_targets {text : List Char} {targets : List HostTuple} (plain : nul ∉ text) (denotes : Denotes text targets)
    (few : targets.length ≤ 4095) (fresh : cfg.targets = []) :
    ∃ sinAddr' memory, readOption atof 's' ⟨cfg,sinAddr,text ++ [nul]⟩ 0 =
      .next (some ⟨{cfg with targets := targets},sinAddr',memory⟩) := by
  obtain ⟨own,collected,length⟩ := denotes_own denotes
  have held : At (text ++ [nul]) 0 text := ⟨plain,[],rfl⟩
  have room : ([] : List HostTuple).length + (tokens ',' text).length < 4096 := by
    rw [length,List.length_nil]
    omega
  have parsed : parseTargets (text ++ [nul]) 0 sinAddr = (targets,.done) := by
    have whole := @recordEntries_own sinAddr [] (Nat.succ_pos 4095) (tokens ',' text) fun entry inside => own entry (List.mem_of_mem_take inside)
    rw [parseTargets_entries held,whole,if_pos room,collected,List.nil_append]
  rw [parseTargets] at parsed
  obtain ⟨read,ended⟩ := Prod.mk.inj parsed
  refine ⟨(targetLoop 4097 ⟨text ++ [nul],[],sinAddr⟩ 0).1.sinAddr,(targetLoop 4097 ⟨text ++ [nul],[],sinAddr⟩ 0).1.memory,?_⟩
  unfold readOption
  dsimp only
  rw [readTargets,fresh]
  generalize targetLoop 4097 ⟨text ++ [nul],[],sinAddr⟩ 0 = result at read ended
  obtain ⟨parsing,ending⟩ := result
  subst read
  subst ended
  rfl

theorem reads_interarrivals {text : List Char} {gen : RandGen F} {referenceIaGen : Option (RandGen F)}
    (built : interarrivals atof (text ++ [nul]) 0 = .next (some gen,referenceIaGen)) :
    ∃ memory, readOption atof 'i' ⟨cfg,sinAddr,text ++ [nul]⟩ 0 =
      .next (some ⟨{cfg with idist := some gen, referenceIaGen := referenceIaGen},sinAddr,memory⟩) := by
  obtain ⟨⟨idist,memory⟩,first,built⟩ := Outcome.bind_next built
  obtain ⟨⟨reference,memory'⟩,second,returned⟩ := Outcome.bind_next built
  cases returned
  refine ⟨memory',?_⟩
  unfold readOption
  dsimp only
  rw [readInterarrivals,first,Outcome.next_bind]
  dsimp only
  rw [second]
  rfl

theorem reads_appProto {text memory : List Char} {app : ApplicationProtocol F}
    (made : initAppProto atof (text ++ [nul]) 0 = .next (some app,memory)) :
    readOption atof 'r' ⟨cfg,sinAddr,text ++ [nul]⟩ 0 = .next (some ⟨{cfg with appProto := some app},sinAddr,memory⟩) := by
  unfold readOption
  dsimp only
  rw [readAppProto,made]
  rfl

theorem reads_threads {value : Int} (range : -2^63 ≤ value ∧ value < 2^63) :
    readOption atof 't' ⟨cfg,sinAddr,decimalInt value ++ [nul]⟩ 0 =
      .next (some ⟨{cfg with threadCount := value.bmod (2^32)},sinAddr,decimalInt value ++ [nul]⟩) := by
  unfold readOption
  dsimp only
  rw [atoi_decimalInt range]
  rfl

theorem reads_conn {value : Int} (range : -2^63 ≤ value ∧ value < 2^63) :
    readOption atof 'c' ⟨cfg,sinAddr,decimalInt value ++ [nul]⟩ 0 =
      .next (some ⟨{cfg with connCount := value.bmod (2^32)},sinAddr,decimalInt value ++ [nul]⟩) := by
  unfold readOption
  dsimp only
  rw [atoi_decimalInt range]
  rfl

theorem reads_protocol : readOption atof 'p' ⟨cfg,sinAddr,"TCP".toList ++ [nul]⟩ 0 =
    .next (some ⟨{cfg with tpType := .tcp},sinAddr,"TCP".toList ++ [nul]⟩) := rfl

theorem agentTypeOf_number (role : Role) : agentTypeOf (role.number.bmod (2^32)) = some role.agentType := by
  cases role with
  | throughput => rfl
  | latency => rfl
  | symmetric nicTS => cases nicTS <;> rfl

theorem number_range (role : Role) : -2^63 ≤ role.number ∧ role.number < 2^63 := by
  cases role with
  | throughput => decide
  | latency => decide
  | symmetric nicTS => cases nicTS <;> decide

theorem reads_role (role : Role) : readOption atof 'a' ⟨cfg,sinAddr,decimalInt role.number ++ [nul]⟩ 0 =
    .next (some ⟨{cfg with atype := role.agentType},sinAddr,decimalInt role.number ++ [nul]⟩) := by
  unfold readOption
  dsimp only
  rw [atoi_decimalInt (number_range role),agentTypeOf_number]
  rfl

end Readings

/-- What a coordinator that means this starts its agents with. -/
structure Means {F : Type} [CMath F] (atof : List Char → F) (server : ServerConfig) (targets : List HostTuple) (idist : RandGen F)
    (referenceIaGen : Option (RandGen F)) (appProto : ApplicationProtocol F) : Prop where
  plain : server.Plain
  targets : Denotes server.target targets ∧ targets.length ≤ 4095
  idist : interarrivals atof (server.idist ++ [nul]) 0 = .next (some idist,referenceIaGen)
  appProto : ∃ memory, initAppProto atof (server.appProto ++ [nul]) 0 = .next (some appProto,memory)
  named : server.appProto ≠ "ascii-mem-svc".toList
  comProto : server.comProto = "TCP".toList
  -- the integers of Go
  ints : ∀ value ∈ [server.thThreads,server.ltThreads,server.thConn,server.ltConn], -2^63 ≤ value ∧ value < 2^63

def echoServer : ServerConfig :=
  ⟨"10.0.0.1:8080,10.0.0.1:8081".toList,8,4,64,16,"exp".toList,"echo:64".toList,"TCP".toList⟩

theorem echoServer_plain : echoServer.Plain where
  target := ⟨by decide,List.all_eq_true.mp rfl⟩
  idist := ⟨by decide,List.all_eq_true.mp rfl⟩
  appProto := ⟨by decide,List.all_eq_true.mp rfl⟩
  comProto := ⟨by decide,List.all_eq_true.mp rfl⟩

theorem echoServer_targets : Denotes echoServer.target [⟨0x0100000a,8080⟩,⟨0x0100000a,8081⟩] := by
  have first : EntryDenotes ("10.0.0.1".toList ++ ':' :: "8080".toList) ⟨0x0100000a,8080⟩ :=
    .mk rfl (by decide) (List.all_eq_true.mp rfl) (by decide)
  have second : EntryDenotes ("10.0.0.1".toList ++ ':' :: "8081".toList) ⟨0x0100000a,8081⟩ :=
    .mk rfl (by decide) (List.all_eq_true.mp rfl) (by decide)
  exact .more first (.single second)

theorem echoServer_means : Means wholeAtof echoServer [⟨0x0100000a,8080⟩,⟨0x0100000a,8081⟩] (expInit (CDouble.ofInt 0))
    (some (expInit (CDouble.ofInt 0))) (.echo 64) where
  plain := echoServer_plain
  targets := ⟨echoServer_targets,by decide⟩
  idist := rfl
  appProto := ⟨_,rfl⟩
  named := by decide
  comProto := rfl
  ints := by decide

end Lancet.CommandLine
