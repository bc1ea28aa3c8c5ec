import Lancet.Foundation.CString
import Lancet.Foundation.CMath
import Lancet.Foundation.Machine

/-! The random generators (rand_gen.c): how a specification is parsed, with `strtok` cutting it
in place, and what the generators compute. There is no generator of the gamma kind, since its
initialisation is an assertion that fails. -/
namespace Lancet
open Foundation CString

structure ParamLss (F : Type) where
  loc : F
  scale : F
  shape : F
  deriving DecidableEq, Repr

inductive RandGen (F : Type) where
  | fixed (value : F)
  | exp (lambda : F)
  | gpar (params : ParamLss F)
  | gev (params : ParamLss F)
  | bimodal (low up prob : F)
  | lognorm (mu sigma : F)
  deriving DecidableEq, Repr

namespace RandGen

section Generators
variable {F : Type} [CMath F]
open CDouble CMath

def gparInvCdf (params : ParamLss F) (y : F) : Option F :=
  (pow (ofInt 1 - y) (neg params.shape)).map (fun power => params.loc + params.scale * (power - ofInt 1) / params.shape)

def gevInvCdf (params : ParamLss F) (y : F) : Option F :=
  (pow (neg (CMath.exp y)) (neg params.shape)).map (fun power => params.loc + params.scale * (power - ofInt 1) / params.shape)

def invCdf (gen : RandGen F) (y : F) : Outcome (Option F) :=
  match gen with
  | .fixed value => .next (some value)
  | .exp lambda => .next ((log y).map (fun logarithm => neg logarithm / lambda))
  | .gpar params => .next (gparInvCdf params y)
  | .gev params => .next (gevInvCdf params y)
  | .bimodal low up prob => .next (some (if lt y prob || eq y prob then low else up))
  | .lognorm _ _ => .fault

def setAvg (gen : RandGen F) (avg : F) : Outcome (RandGen F) :=
  match gen with
  | .fixed _ => .next (.fixed avg)
  | .exp _ => .next (.exp (ofInt 1 / avg))
  -- only the scale is changed
  | .gpar params => .next (.gpar {params with scale := (avg - params.loc) * (ofInt 1 - params.shape)})
  | .gev _ => .fault
  | .bimodal _ _ _ => .fault
  | .lognorm _ _ => .fault

end Generators

section Parsing
variable {F : Type} [CMath F] (atof : List Char → F)
open CDouble

/-- `atof(strtok(NULL, ":"))`, which fails without a further token. -/
def nextParam (cut : Cut) : Outcome (F × Cut) :=
  let next := strtokR ':' cut.memory cut.save
  match next.token with
  | none => .fault
  | some tok => .next (atof (str next.memory tok),next)

def parseParam1 (memory : List Char) (type : Nat) : F × List Char :=
  let first := strtokR ':' memory type
  let next := strtokR ':' first.memory first.save
  match next.token with
  | none => (ofInt 0,next.memory)
  | some tok => (atof (str next.memory tok),next.memory)

def parseParam2 (memory : List Char) (type : Nat) : Outcome ((F × F) × List Char) := do
  let (a,cut) ← nextParam atof (strtokR ':' memory type)
  let (b,cut) ← nextParam atof cut
  return ((a,b),cut.memory)

def parseParam3 (memory : List Char) (type : Nat) : Outcome ((F × F × F) × List Char) := do
  let (a,cut) ← nextParam atof (strtokR ':' memory type)
  let (b,cut) ← nextParam atof cut
  let (c,cut) ← nextParam atof cut
  return ((a,b,c),cut.memory)

def fixedInit (a : F) : RandGen F := .fixed a

def expInit (a : F) : RandGen F := .exp (ofInt 1 / a)

def gparInit (param : F × F × F) : RandGen F := .gpar ⟨param.1,param.2.1,param.2.2⟩

def gevInit (param : F × F × F) : RandGen F := .gev ⟨param.1,param.2.1,param.2.2⟩

def bimodalInit (param : F × F × F) : RandGen F := .bimodal param.1 param.2.1 param.2.2

def lognormalInit (param : F × F) : RandGen F := .lognorm param.1 param.2

/-- `strncmp` with the whole length of a name. -/
def startsWith (name text : List Char) : Bool := name.isPrefixOf text

/-- A generator from a copy of a specification in an array of its own. -/
def initFrom (init : F × F × F → RandGen F) (type : List Char) : Outcome (RandGen F) := do
  let (param,_) ← parseParam3 atof (type ++ [nul]) 0
  return init param

/-- The generator, if the kind is known, and the memory with what is left of the specification. -/
def initRand (memory : List Char) (genType : Nat) : Outcome (Option (RandGen F) × List Char) :=
  let text := str memory genType
  if startsWith "fixed".toList text then
    let (a,memory) := parseParam1 atof memory genType
    return (some (fixedInit a),memory)
  else if startsWith "exp".toList text then
    let (a,memory) := parseParam1 atof memory genType
    return (some (expInit a),memory)
  else if startsWith "pareto".toList text then do
    let (param,memory) ← parseParam3 atof memory genType
    return (some (gparInit param),memory)
  else if startsWith "gev".toList text then do
    let (param,memory) ← parseParam3 atof memory genType
    return (some (gevInit param),memory)
  else if text = "fb_key".toList then do
    let gen ← initFrom atof gevInit "gev:30.7984:8.20449:0.078688".toList
    return (some gen,memory)
  else if text = "fb_ia".toList then do
    let gen ← initFrom atof gparInit "gpar:0:16.0292:0.154971".toList
    return (some gen,memory)
  else if text = "fb_val".toList then do
    let gen ← initFrom atof gparInit "gpar:15.0:214.476:0.348238".toList
    return (some gen,memory)
  else if startsWith "bimodal".toList text then do
    let (param,memory) ← parseParam3 atof memory genType
    return (some (bimodalInit param),memory)
  else if startsWith "lognorm".toList text then do
    let (param,memory) ← parseParam2 atof memory genType
    return (some (lognormalInit param),memory)
  else if startsWith "gamma".toList text then do
    let _ ← parseParam2 atof memory genType
    -- `gamma_init` starts with `assert(0)`
    .fault
  else return (none,memory)

/-- The option `-i`: the generator of the agent and then the reference one, from one argument. -/
def interarrivals (memory : List Char) (optarg : Nat) : Outcome (Option (RandGen F) × Option (RandGen F)) := do
  let (idist,memory) ← initRand atof memory optarg
  let (referenceIaGen,_) ← initRand atof memory optarg
  return (idist,referenceIaGen)

end Parsing
end RandGen
end Lancet
