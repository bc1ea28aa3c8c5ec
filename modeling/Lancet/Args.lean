import Lancet.Agent
import Lancet.RandGen
import Lancet.TargetList
import Lancet.Foundation.Locality

/-! The command line of an agent (args.c, app_proto.c): the options are read in the memory of
`argv`, which the readers of targets, generators and protocols cut in place. -/
namespace Lancet.Args
open Foundation CString RandGen TargetList

inductive TransportProtocolType where
  | tcp
  | r2p2
  deriving DecidableEq, Repr

/-- `struct application_protocol` with its argument; a service without a known generator has a
null pointer. -/
inductive ApplicationProtocol (F : Type) where
  | echo (messageLen : Int)
  | synthetic (gen : RandGen F)
  | asciiMemcached
  | asciiMemcachedSvc (svcTimeGen : Option (RandGen F))
  deriving DecidableEq, Repr

/-- What the options set, with the generator of the reference, a variable of its own. -/
structure AgentConfig (F : Type) extends Agent.AgentConfig where
  connCount : Int
  targets : List HostTuple
  tpType : TransportProtocolType
  idist : Option (RandGen F)
  referenceIaGen : Option (RandGen F)
  appProto : Option (ApplicationProtocol F)
  deriving DecidableEq, Repr

/-- `calloc` -/
def AgentConfig.zero {F : Type} : AgentConfig F := ⟨⟨0,.throughputAgent⟩,0,[],.tcp,none,none,none⟩

section Reading
variable {F : Type} [CMath F] (atof : List Char → F)

/-- `strtok(proto, ":")` and the integer in the next token. A negative length is none that `malloc` can give. -/
def echoInit (memory : List Char) (proto : Nat) : Outcome (ApplicationProtocol F × List Char) := do
  let first := strtokR ':' memory proto
  let next := strtokR ':' first.memory first.save
  match next.token with
  | none => .fault
  | some token => do
    Outcome.assert (0 ≤ atoi (str next.memory token))
    return (.echo (atoi (str next.memory token)),next.memory)

/-- `strtok(NULL, "")` is what is left, if anything is; the generator must be known. -/
def syntheticInit (memory : List Char) (proto : Nat) : Outcome (ApplicationProtocol F × List Char) :=
  let first := strtokR ':' memory proto
  if str first.memory first.save = [] then .fault
  else do
    let (gen,memory) ← initRand atof first.memory first.save
    match gen with
    | none => .fault
    | some gen => return (.synthetic gen,memory)

/-- The generator is read behind `ascii-mem-svc:`. -/
def asciiMemSvcInit (memory : List Char) (proto : Nat) : Outcome (ApplicationProtocol F × List Char) := do
  let (gen,memory) ← initRand atof memory (proto + 14)
  return (.asciiMemcachedSvc gen,memory)

def initAppProto (memory : List Char) (proto : Nat) : Outcome (Option (ApplicationProtocol F) × List Char) :=
  let text := str memory proto
  if startsWith "echo".toList text then do
    let (app,memory) ← echoInit memory proto
    return (some app,memory)
  else if startsWith "synthetic".toList text then do
    let (app,memory) ← syntheticInit atof memory proto
    return (some app,memory)
  else if startsWith "ascii-mem-svc".toList text then do
    let (app,memory) ← asciiMemSvcInit atof memory proto
    return (some app,memory)
  else if startsWith "ascii-mem".toList text then return (some .asciiMemcached,memory)
  else return (none,memory)

/-- The variables of `parse_arguments`; `sa` is not initialised. -/
structure Parsing (F : Type) where
  cfg : AgentConfig F
  sinAddr : UInt32
  memory : List Char
  deriving DecidableEq, Repr

def agentTypeOf (number : Int) : Option Agent.AgentType :=
  if number = 0 then some .throughputAgent
  else if number = 1 then some .latencyAgent
  else if number = 2 then some .symmetricNicTimestampAgent
  else if number = 3 then some .symmetricAgent
  else none

def transportOf (name : List Char) : Option TransportProtocolType :=
  if name = "TCP".toList then some .tcp
  else if name = "R2P2".toList then some .r2p2
  else none

def readTargets (parsing : Parsing F) (optarg : Nat) : Outcome (Option (Parsing F)) :=
  match targetLoop 4097 ⟨parsing.memory,parsing.cfg.targets,parsing.sinAddr⟩ optarg with
  | (read,.done) => .next (some ⟨{parsing.cfg with targets := read.targets},read.sinAddr,read.memory⟩)
  | (_,.assertion) | (_,.missingToken) | (_,.running) => .fault

def readInterarrivals (parsing : Parsing F) (optarg : Nat) : Outcome (Option (Parsing F)) := do
  let (idist,memory) ← initRand atof parsing.memory optarg
  let (referenceIaGen,memory) ← initRand atof memory optarg
  match idist with
  | none => return none
  | some gen => return some ⟨{parsing.cfg with idist := some gen, referenceIaGen := referenceIaGen},parsing.sinAddr,memory⟩

def readAppProto (parsing : Parsing F) (optarg : Nat) : Outcome (Option (Parsing F)) := do
  let (appProto,memory) ← initAppProto atof parsing.memory optarg
  match appProto with
  | none => return none
  | some app => return some ⟨{parsing.cfg with appProto := some app},parsing.sinAddr,memory⟩

/-- The body of the loop, for an option that `getopt` returns; without a configuration the function returns NULL. -/
def readOption (letter : Char) (parsing : Parsing F) (optarg : Nat) : Outcome (Option (Parsing F)) :=
  let text := str parsing.memory optarg
  match letter with
  | 't' => .next (some {parsing with cfg := {parsing.cfg with threadCount := atoi text}})
  | 's' => readTargets parsing optarg
  | 'c' => .next (some {parsing with cfg := {parsing.cfg with connCount := atoi text}})
  | 'a' => .next ((agentTypeOf (atoi text)).map (fun atype => {parsing with cfg := {parsing.cfg with atype := atype}}))
  | 'p' => .next ((transportOf text).map (fun tpType => {parsing with cfg := {parsing.cfg with tpType := tpType}}))
  | 'i' => readInterarrivals atof parsing optarg
  | 'r' => readAppProto atof parsing optarg
  -- `abort()`
  | _ => .fault

/-- A word as `getopt` takes it with `"t:s:c:a:p:i:r:"`, where every option has an argument. -/
inductive Word where
  | stop
  | operand
  | unknown
  | attached (letter : Char)
  | separate (letter : Char)
  deriving DecidableEq, Repr

def optionLetters : List Char := ['t','s','c','a','p','i','r']

def wordOf (text : List Char) : Word :=
  match text with
  | ['-','-'] => .stop
  | '-' :: letter :: more =>
    if letter ∈ optionLetters then if more = [] then .separate letter else .attached letter
    else .unknown
  | _ => .operand

/-- `init_transport_protocol` knows one protocol only. -/
def finish (parsing : Parsing F) : Option (AgentConfig F) :=
  match parsing.cfg.tpType with
  | .tcp => some parsing.cfg
  | .r2p2 => none

/-- The loop over `argv`. Words that are no options are left for the end. -/
def optionLoop (parsing : Parsing F) : List Nat → Outcome (Option (AgentConfig F))
  | [] => .next (finish parsing)
  | word :: rest =>
    match wordOf (str parsing.memory word) with
    | .stop => .next (finish parsing)
    | .operand => optionLoop parsing rest
    | .unknown => .fault
    | .separate letter => match rest with
      | [] => .fault
      | optarg :: rest => do
        match ← readOption atof letter parsing optarg with
        | none => return none
        | some parsing => optionLoop parsing rest
    | .attached letter => do
      match ← readOption atof letter parsing (word + 2) with
      | none => return none
      | some parsing => optionLoop parsing rest

def parseArguments (memory : List Char) (argv : List Nat) (sinAddr : UInt32) : Outcome (Option (AgentConfig F)) :=
  optionLoop atof ⟨.zero,sinAddr,memory⟩ argv

end Reading

/-- The strings of `argv` one behind the other. -/
def argvMemory (words : List (List Char)) : List Char := words.flatMap (· ++ [nul])

def argvPointers (base : Nat) : List (List Char) → List Nat
  | [] => []
  | word :: words => base :: argvPointers (base + (word.length + 1)) words

/-- An agent that is started with these words behind its name, in front of its environment. -/
def started {F : Type} [CMath F] (atof : List Char → F) (name : List Char) (words : List (List Char)) (environment : List Char)
    (sinAddr : UInt32) : Outcome (Option (AgentConfig F)) :=
  parseArguments atof (name ++ [nul] ++ (argvMemory words ++ environment)) (argvPointers (name ++ [nul]).length words) sinAddr

end Lancet.Args
