import Lancet.CallLaws
import Lancet.FixedTermination
import Lancet.ReplyPairing

/-! Whole experiments against deployed agents. Whatever the schedule is, the coordinator and each
agent take turns until a call fails, every report is about the time from the START_MEASURE
before it, and the rates on the screen are what the workers of the agents have recorded. -/
namespace Lancet.Experiments
open Foundation Agent Stats CoordProto Proto Manager MessageStream MeasureWindow ReplyStream ReliableNet Patterns Deployment
open Conversations CallLaws
open ReplyPairing (symAgents_distinct asymAgents_distinct)

/-- The sum of what the agents have recorded, over the duration of the first of them. All were measuring at the pivot. -/
def Totals (trace : List Entry) (agents : List Conn) (stats : ThroughputReply) : Prop :=
  ∃ (pivot : Int) (windows : List Window),
    List.Forall₂ (fun a window => (∃ reply, Reports (agentLog a trace) window reply) ∧ window.since ≤ pivot ∧ pivot ≤ window.now)
      agents windows ∧
    stats.reqCount = UInt64.ofNat (windows.map (fun window => responses window.calls)).sum ∧
    ∃ first ∈ windows.head?, stats.duration = UInt64.ofInt (first.now - first.since)

/-- The line of a throughput pass. -/
def rateLine (stats : ThroughputReply) : Printed := ⟨"%v\n",[.float (getRPS stats)]⟩

/-- The row of the table that `printThroughputStats` prints. -/
def tableLine (stats : ThroughputReply) : Printed := ⟨"%v\t%v\t%v\t%v\n",[.int stats.reqCount.toNat,
  .float (1e6 * float64 stats.reqCount / float64 stats.duration),
  .float (1e6 * float64 stats.rxBytes / float64 stats.duration),
  .float (1e6 * float64 stats.txBytes / float64 stats.duration)]⟩

/-- The lines that show a rate. -/
def quotes (line : Printed) : Bool := match line.args with
  | [.float _] => line.format = "%v\n"
  | [.int _,.float _,.float _,.float _] => line.format = "%v\t%v\t%v\t%v\n"
  | _ => false

theorem quotes_other {format : String} (value : Float) (other : format ≠ "%v\n") : quotes ⟨format,[.float value]⟩ = false :=
  decide_eq_false other

def Truthful (trace : List Entry) (agents : List Conn) (lines : Screen) : Prop :=
  ∀ line ∈ lines, quotes line = true → ∃ stats, (line = rateLine stats ∨ line = tableLine stats) ∧ Totals trace agents stats

section Lines
variable {trace : List Entry} {agents : List Conn} {pivot : Int}

theorem totals_reqs (replies : List ThroughputReply) (agg : ThroughputReply) :
    (replies.foldl addThroughput agg).reqCount = agg.reqCount + (replies.map (·.reqCount)).sum := by
  induction replies generalizing agg with
  | nil => exact (UInt64.add_zero _).symm
  | cons reply replies ih =>
    rw [List.foldl_cons,ih,List.map_cons,List.sum_cons,← UInt64.add_assoc]
    rfl

theorem accounts_windows {replies : List ThroughputReply} (accounts : Accounts trace pivot agents replies) :
    ∃ windows, List.Forall₂ (fun a window => (∃ reply, Reports (agentLog a trace) window reply) ∧ window.since ≤ pivot ∧
        pivot ≤ window.now) agents windows ∧
      (replies.map (·.reqCount)).sum = UInt64.ofNat (windows.map (fun window => responses window.calls)).sum ∧
      ∀ reply ∈ replies.head?, ∃ first ∈ windows.head?, reply.duration = UInt64.ofInt (first.now - first.since) := by
  induction accounts with
  | nil => exact ⟨[],.nil,rfl,fun _ none => nomatch none⟩
  | cons told _ ih =>
    obtain ⟨window,⟨reply,reports,-⟩,around,reqCount,duration⟩ := told
    obtain ⟨windows,matching,sum,-⟩ := ih
    refine ⟨window :: windows,.cons ⟨⟨reply,reports⟩,around⟩ matching,?_,fun other first => ?_⟩
    · rw [List.map_cons,List.sum_cons,List.map_cons,List.sum_cons,sum,reqCount,UInt64.ofNat_add]
    · cases first
      exact ⟨window,rfl,duration⟩

theorem computeStats_writes {replies : List ThroughputReply} (accounts : Accounts trace pivot agents replies) :
    Go.Triple (Truthful trace agents) (computeStatsThroughput replies)
      (fun stats lines => Totals trace agents stats ∧ Truthful trace agents lines) (Truthful trace agents) := by
  rw [computeStatsThroughput]
  split
  next => exact Go.triple_crash fun _ => id
  next first head =>
    obtain ⟨windows,matching,sum,durations⟩ := accounts_windows accounts
    refine Go.triple_pure _ fun lines truthful => ⟨⟨pivot,windows,matching,?_,durations first head⟩,truthful⟩
    rw [← sum]
    exact (totals_reqs replies ⟨0,0,0,0⟩).trans (UInt64.zero_add _)

/-- What a program adds to the screen is true. -/
def Writes {α : Type} (trace : List Entry) (agents : List Conn) (program : Go Screen α) : Prop :=
  Go.Triple (Truthful trace agents) program (fun _ => Truthful trace agents) (Truthful trace agents)

theorem Writes.bind {α β : Type} {program : Go Screen α} {following : α → Go Screen β} (first : Writes trace agents program)
    (second : ∀ value, Writes trace agents (following value)) : Writes trace agents (program >>= following) :=
  Go.triple_bind first second

theorem writes_pure {α : Type} (value : α) : Writes trace agents (pure value) := Go.triple_pure value fun _ => id

theorem writes_line {format : String} {args : List Value} (quoting : quotes ⟨format,args⟩ = true →
      ∃ stats, (⟨format,args⟩ = rateLine stats ∨ ⟨format,args⟩ = tableLine stats) ∧ Totals trace agents stats) :
    Writes trace agents (printf format args) := by
  refine Go.triple_change fun lines truthful line member => ?_
  rcases List.mem_append.mp member with earlier | new
  · exact truthful line earlier
  · rw [List.mem_singleton.mp new]
    exact quoting

theorem writes_note {format : String} {args : List Value} (plain : quotes ⟨format,args⟩ = false) :
    Writes trace agents (printf format args) :=
  writes_line fun rate => absurd (plain.symm.trans rate) Bool.false_ne_true

theorem writes_rate {stats : ThroughputReply} (totals : Totals trace agents stats) :
    Writes trace agents (printf "%v\n" [.float (getRPS stats)]) :=
  writes_line fun _ => ⟨stats,.inl rfl,totals⟩

theorem writes_table {stats : ThroughputReply} (totals : Totals trace agents stats) :
    Writes trace agents (printThroughputStats stats) :=
  Writes.bind (writes_note rfl) fun _ => writes_line fun _ => ⟨stats,.inr rfl,totals⟩

theorem writes_latencyStats (stats : LatencyReply) : Writes trace agents (printLatencyStats stats) :=
  Writes.bind (writes_note rfl) fun _ => writes_note rfl

theorem writes_computeStatsLatency (replies : List LatencyReply) : Writes trace agents (computeStatsLatency replies) := by
  refine Writes.bind (Go.triple_forEach (fun _ => Truthful trace agents) (fun reply _ => writes_latencyStats reply) replies) fun _ => ?_
  split
  next => exact Go.triple_crash fun _ => id
  next => exact writes_pure _

/-- A program that goes on with the sum of replies. -/
theorem writes_total {α : Type} {replies : List ThroughputReply} {following : ThroughputReply → Go Screen α}
    (accounts : Accounts trace pivot agents replies)
    (rest : ∀ stats, Totals trace agents stats → Writes trace agents (following stats)) :
    Writes trace agents (computeStatsThroughput replies >>= following) :=
  Go.triple_bind (computeStats_writes accounts) fun stats => Go.triple_given fun totals => rest stats totals

theorem writes_throughputPass {plan : Plan} {loop : Loop} {results : ThroughputResults}
    (accounts : Accounts trace pivot agents results.result) : Writes trace agents (throughputPass plan loop results) := by
  refine writes_total accounts fun stats totals => ?_
  refine (writes_rate totals).bind fun _ => (writes_note rfl).bind fun _ => ?_
  split
  next => exact (writes_note rfl).bind fun _ => writes_pure _
  next => exact (writes_note rfl).bind fun _ => writes_pure _

theorem writes_latencyPass {plan : Plan} {loop : Loop} {results : LatencyResults}
    (accounts : Accounts trace pivot agents (results.result.map (·.thData))) : Writes trace agents (latencyPass plan loop results) := by
  refine (writes_note rfl).bind fun _ => (writes_note rfl).bind fun _ => ?_
  split
  next => exact writes_pure _
  next =>
    refine (writes_note rfl).bind fun _ => ?_
    split
    next => exact writes_pure _
    next =>
      refine writes_total accounts fun stats totals => ?_
      refine (writes_table totals).bind fun _ => (writes_computeStatsLatency _).bind fun aggLat => (writes_note rfl).bind fun _ => ?_
      split
      next => exact writes_pure _
      next => exact (writes_note rfl).bind fun _ => (writes_latencyStats aggLat).bind fun _ => writes_pure _

end Lines

/-- What an experiment is run with, and whose reports it prints. -/
structure Setting where
  fleet : Fleet
  long : UInt32 → Int
  positive : ∀ type, 0 ≤ long type
  agents : List Conn
  -- it goes on after a call that failed
  careless : Prop

namespace Setting
variable (setting : Setting)

/-- Everything on the screen is true; or a call has failed and was ignored. -/
def Fine (known : Site → Prop) (world : Site × Screen) : Prop :=
  (known world.1 ∧ Truthful world.1.trace setting.agents world.2) ∨ setting.careless ∧ Broken setting.long world.1

def Still (floor : Int) (limit : Conn → Option Int) : Site → Prop := CallLaws.Still setting.fleet setting.long floor limit

def Quiet : Site → Prop := CallLaws.Quiet setting.fleet setting.long

/-- No request is under way, or a call has failed. -/
def Ended (site : Site) : Prop := setting.Quiet site ∨ Broken setting.long site

/-- A program of the coordinator, with what is known of the agents before and after it. -/
def Goes {α : Type} (known : Site → Prop) (program : Go (Site × Screen) α) (after : α → Site → Prop) : Prop :=
  Go.Triple (setting.Fine known) program (fun value => setting.Fine (after value)) (setting.Fine setting.Ended)

/-- A program that begins and ends when no request is under way. -/
def Calm {α : Type} (program : Go (Site × Screen) α) : Prop := setting.Goes setting.Quiet program (fun _ => setting.Quiet)

end Setting

section Programs
variable {α β : Type} {setting : Setting} {known known' : Site → Prop}

theorem Setting.Fine.imp {world : Site × Screen} (fine : setting.Fine known world) (weaker : known world.1 → known' world.1) :
    setting.Fine known' world :=
  fine.imp_left (And.imp_left weaker)

theorem lasting_truthful (agents : List Conn) (lines : Screen) : Lasting (fun site => Truthful site.trace agents lines) := by
  intro site after truthful ⟨entries,added⟩ line member rate
  obtain ⟨stats,shown,pivot,windows,matching,totals⟩ := truthful line member rate
  refine ⟨stats,shown,pivot,windows,matching.imp fun a window told => ?_,totals⟩
  obtain ⟨⟨reply,reports⟩,around⟩ := told
  refine ⟨⟨reply,?_⟩,around⟩
  rw [added,agentLog_append]
  exact reports.extend _

theorem goes_bind {program : Go (Site × Screen) α} {following : α → Go (Site × Screen) β} {middle : α → Site → Prop}
    {after : β → Site → Prop} (first : setting.Goes known program middle)
    (second : ∀ value, setting.Goes (middle value) (following value) after) : setting.Goes known (program >>= following) after :=
  Go.triple_bind first second

theorem goes_exists {ι : Type} [Inhabited ι] {known : ι → Site → Prop} {program : Go (Site × Screen) α} {after : α → Site → Prop}
    (each : ∀ index, setting.Goes (known index) program after) :
    setting.Goes (fun site => ∃ index, known index site) program after := by
  constructor
  rintro world (⟨⟨index,holds⟩,truthful⟩ | lost)
  · exact (each index).ends world (.inl ⟨holds,truthful⟩)
  · exact (each default).ends world (.inr lost)

theorem goes_weaken {program : Go (Site × Screen) α} {after after' : α → Site → Prop} (goes : setting.Goes known' program after)
    (stronger : ∀ site, known site → known' site) (weaker : ∀ value site, after value site → after' value site) :
    setting.Goes known program after' :=
  goes.consequence (fun world fine => fine.imp (stronger world.1)) (fun value world fine => fine.imp (weaker value world.1)) (fun _ => id)

theorem goes_pure {after : α → Site → Prop} (value : α) (holds : ∀ site, known site → after value site) :
    setting.Goes known (pure value) after :=
  Go.triple_pure value fun world fine => fine.imp (holds world.1)

theorem calm_pure (value : α) : setting.Calm (pure value) := goes_pure value fun _ => id

theorem calm_fail (text : String) : setting.Calm (Go.fail text : Go (Site × Screen) α) :=
  Go.triple_fail text fun _ fine => fine.imp .inl

theorem calm_crash : setting.Calm (Go.crash : Go (Site × Screen) α) := Go.triple_crash fun _ fine => fine.imp .inl

/-- What is written is true as long as nothing was ignored. -/
theorem goes_screen {program : Go Screen α} (quiet : ∀ site, known site → setting.Quiet site)
    (writes : ∀ site, known site → Writes site.trace setting.agents program) :
    setting.Goes known (screen program) (fun _ => known) := by
  refine @Go.triple_onSecond_each _ _ _ (fun site lines => setting.Fine known (site,lines))
    (fun site lines => setting.Fine setting.Ended (site,lines)) (fun site _ lines => setting.Fine known (site,lines)) program fun site => ?_
  constructor
  rintro lines (⟨holds,truthful⟩ | lost)
  · refine ((writes site holds).consequence (fun _ => id) (fun _ _ written => ?_) (fun _ written => ?_)).ends lines truthful
    · exact .inl ⟨holds,written⟩
    · exact .inl ⟨.inl (quiet site holds),written⟩
  · rcases program lines with ⟨value | _ | _ | _,lines'⟩
    all_goals exact .inr lost

theorem goes_note {format : String} {args : List Value} (quiet : ∀ site, known site → setting.Quiet site)
    (plain : quotes ⟨format,args⟩ = false) : setting.Goes known (screen (printf format args)) (fun _ => known) :=
  goes_screen quiet fun _ _ => writes_note plain

/-- A call adds to the trace, so that what was printed before stays true. -/
theorem goes_first {program : Go Site α} {after : α → Site → Prop}
    (sound : Go.Triple known program after (Broken setting.long)) (steady : Steady program) :
    setting.Goes known (Go.onFirst program) after := by
  refine @Go.triple_onFirst_each _ _ _ _ (fun lines site => setting.Fine known (site,lines))
    (fun lines site => setting.Fine setting.Ended (site,lines)) (fun lines value site => setting.Fine (after value) (site,lines)) fun lines => ?_
  have truthful := steady.remembers (lasting_truthful setting.agents lines) sound
  have lost : Lasting (fun site => setting.careless ∧ Broken setting.long site) :=
    fun site after lost more => ⟨lost.1,lasting_broken setting.long site after lost.2 more⟩
  refine (Go.triple_or truthful (steady.lasts lost)).consequence (fun _ => id) (fun _ _ => id) (fun site ended => ?_)
  exact ended.imp_left (And.imp_left .inr)

theorem goes_call {program : Go Site α} {after : α → Site → Prop}
    (sound : Go.Triple known program after (Broken setting.long)) (steady : Steady program) (text : String → String) :
    setting.Goes known (Go.describe text (Go.onFirst program)) after :=
  Go.triple_describe text (goes_first sound steady)

theorem goes_pause {floor : Int} {limit : Conn → Option Int} (seconds pause : Int) (short : pause ≤ max 0 (1000000 * seconds)) :
    setting.Goes (setting.Still floor limit) (sleep setting.fleet.net seconds) (fun _ => setting.Still (floor + pause) limit) :=
  goes_first (Go.triple_change fun _ => sleep_still seconds pause short) (sleep_steady seconds)

theorem goes_rest {floor : Int} {limit : Conn → Option Int} (seconds : Int) :
    setting.Goes (setting.Still floor limit) (sleep setting.fleet.net seconds) (fun _ => setting.Still floor limit) := by
  have slept := @goes_pause setting floor limit seconds 0 (Int.le_max_left _ _)
  rw [Int.add_zero] at slept
  exact slept

theorem calm_rest (seconds : Int) : setting.Calm (sleep setting.fleet.net seconds) :=
  goes_exists fun floor => goes_weaken (goes_rest seconds) (fun _ => id) (fun _ _ still => ⟨floor,still⟩)

theorem calm_note {format : String} {args : List Value} (plain : quotes ⟨format,args⟩ = false) :
    setting.Calm (screen (printf format args)) :=
  goes_note (fun _ => id) plain

theorem calm_startLoad {agents : List Conn} (distinct : agents.Nodup) (load : Int) (text : String → String) :
    setting.Calm (Go.describe text (Go.onFirst (startLoad setting.fleet.net agents load))) :=
  goes_exists fun _ => goes_call (startLoad_still distinct load) (calling_steady ..) text

/-- All of these agents have begun to measure at the pivot, and at least this time has passed since. -/
def Setting.Measures (setting : Setting) (agents : List Conn) (pivot lasted : Int) : Site → Prop :=
  setting.Still (pivot + lasted) (begun agents pivot)

theorem goes_startMeasure {agents : List Conn} (distinct : agents.Nodup) (sampleCount : Int) (samplingRate : Float)
    (text : String → String) :
    setting.Goes setting.Quiet (Go.describe text (Go.onFirst (startMeasure setting.fleet.net agents sampleCount samplingRate)))
      (fun _ site => ∃ pivot, setting.Measures agents pivot 0 site) := by
  refine goes_weaken (goes_exists fun floor => goes_call (startMeasure_still distinct sampleCount samplingRate) (calling_steady ..) text)
    (fun _ => id) (fun _ site measuring => ?_)
  obtain ⟨pivot,still⟩ := measuring
  refine ⟨pivot,?_⟩
  rw [Setting.Measures,Int.add_zero]
  exact still

theorem goes_wait {agents : List Conn} {pivot lasted : Int} (seconds pause : Int) (short : pause ≤ max 0 (1000000 * seconds)) :
    setting.Goes (setting.Measures agents pivot lasted) (sleep setting.fleet.net seconds)
      (fun _ => setting.Measures agents pivot (lasted + pause)) := by
  rw [Setting.Measures,Setting.Measures,← Int.add_assoc]
  exact goes_pause seconds pause short

theorem calm_forEach {body : α → Go (Site × Screen) β} (each : ∀ item, setting.Calm (body item)) (items : List α) :
    setting.Calm (Go.forEach body items) :=
  Go.triple_forEach (fun _ => setting.Fine setting.Quiet) (fun item _ => each item) items

theorem calm_loop {body : α → Go (Site × Screen) (α ⊕ β)} (pass : ∀ state, setting.Calm (body state)) (passes : Nat) (state : α) :
    setting.Calm (Go.loop body passes state) := by
  refine Go.triple_loop (fun _ => setting.Fine setting.Quiet) (fun state => ?_) (fun _ _ fine => fine.imp .inl) passes state
  refine (pass state).consequence (fun _ => id) (fun result world kept => ?_) (fun _ => id)
  cases result with
  | inl state' => exact kept
  | inr value => exact kept

/-- After a call that failed nothing more is said. -/
theorem calm_ignoreError {program : Go (Site × Screen) α} (careless : setting.careless) (calm : setting.Calm program) :
    setting.Calm (Go.ignoreError program) := by
  have stopped : ∀ world, setting.Fine setting.Ended world → setting.Fine setting.Quiet world := by
    rintro world (⟨quiet | broken,truthful⟩ | lost)
    · exact .inl ⟨quiet,truthful⟩
    · exact .inr ⟨careless,broken⟩
    · exact .inr lost
  exact (Go.triple_ignoreError (calm.consequence (fun _ => id) (fun _ _ => id) stopped)).consequence (fun _ => id) (fun _ _ => id)
    (fun _ fine => fine.imp .inl)

theorem calm_parsePart (patternAgs : List (List Char)) (index : Nat) (reason : String) :
    setting.Calm (parsePart patternAgs index reason) := by
  rw [parsePart]
  split
  next => exact calm_crash
  next =>
    split
    next => exact calm_fail _
    next => exact calm_pure _

end Programs

section Reports
variable {α : Type} {setting : Setting} {pivot : Int} {replies : List ThroughputReply} {agents : List Conn}

/-- These replies account for the agents whose sum is to be printed. -/
def Setting.Accounted (setting : Setting) (pivot : Int) (replies : List ThroughputReply) (site : Site) : Prop :=
  setting.Quiet site ∧ Accounts site.trace pivot setting.agents replies

theorem begun_known {asked : List Conn} (inside : ∀ a ∈ asked, a ∈ agents) : ∀ a ∈ asked, begun agents pivot a = some pivot :=
  fun a known => if_pos (inside a known)

theorem goes_reportThroughput {lasted : Int} (distinct : setting.agents.Nodup) (enough : setting.long reportThroughputType ≤ lasted)
    (text : String → String) :
    setting.Goes (setting.Measures setting.agents pivot lasted)
      (Go.describe text (Go.onFirst (reportThroughput setting.fleet.net setting.agents)))
      (fun results => setting.Accounted pivot results.result) := by
  have sound := @reportThroughput_still setting.fleet setting.long (pivot + lasted) (begun setting.agents pivot) setting.agents pivot
    distinct (begun_known fun _ => id) (Int.add_le_add_left enough pivot) (setting.positive _)
  exact goes_weaken (goes_call sound (calling_steady ..) text) (fun _ => id) (fun _ _ told => told.imp_left Still.quiet)

theorem goes_reportLatency {lasted : Int} (distinct : setting.agents.Nodup) (enough : setting.long reportLatencyType ≤ lasted)
    (text : String → String) :
    setting.Goes (setting.Measures setting.agents pivot lasted)
      (Go.describe text (Go.onFirst (reportLatency setting.fleet.net setting.agents)))
      (fun results => setting.Accounted pivot (results.result.map (·.thData))) := by
  have sound := @reportLatency_still setting.fleet setting.long (pivot + lasted) (begun setting.agents pivot) setting.agents pivot
    distinct (begun_known fun _ => id) (Int.add_le_add_left enough pivot) (setting.positive _)
  exact goes_weaken (goes_call sound (calling_steady ..) text) (fun _ => id) (fun _ _ told => told.imp_left Still.quiet)

/-- The replies of two groups, one asked after the other. -/
theorem goes_reportBoth {th lt : List Conn} {lasted : Int} (both : setting.agents = th ++ lt) (distinct : (th ++ lt).Nodup)
    (enough : ∀ type, setting.long type ≤ lasted) {following : ThroughputResults → LatencyResults → Go (Site × Screen) α}
    {after : α → Site → Prop} (text text' : String → String)
    (rest : ∀ throughput latency, setting.Goes (setting.Accounted pivot (throughput.result ++ latency.result.map (·.thData)))
      (following throughput latency) after) :
    setting.Goes (setting.Measures setting.agents pivot lasted) (do
      let throughput ← Go.describe text (Go.onFirst (reportThroughput setting.fleet.net th))
      let latency ← Go.describe text' (Go.onFirst (reportLatency setting.fleet.net lt))
      following throughput latency) after := by
  obtain ⟨first,second,apart⟩ := List.nodup_append.mp distinct
  have inside : ∀ a ∈ th, a ∈ setting.agents := fun a known => by
    rw [both]
    exact List.mem_append_left _ known
  have left : ∀ a ∈ lt, unasked th (begun setting.agents pivot) a = some pivot := fun a known => by
    rw [unasked,if_neg (fun other => apart a other a known rfl),begun,both,if_pos (List.mem_append_right _ known)]
  refine goes_bind (goes_call (reportThroughput_still first (begun_known inside) (Int.add_le_add_left (enough _) pivot)
    (setting.positive _)) (calling_steady ..) text) fun throughput => ?_
  have sound := @reportLatency_still setting.fleet setting.long (pivot + lasted) (unasked th (begun setting.agents pivot)) lt pivot
    second left (Int.add_le_add_left (enough _) pivot) (setting.positive _)
  have steady : Steady (reportLatency setting.fleet.net lt) := calling_steady ..
  have remembers := steady.remembers (lasting_accounts pivot th throughput.result) sound
  refine goes_bind (goes_call (remembers.consequence (fun _ => id) (fun _ _ => id) (fun _ => And.left)) steady text') fun latency => ?_
  refine goes_weaken (rest throughput latency) (fun site told => ?_) (fun _ _ => id)
  obtain ⟨⟨still,reported⟩,earlier⟩ := told
  refine ⟨still.quiet,?_⟩
  rw [both]
  exact List.rel_append earlier reported

theorem goes_print {program : Go Screen α}
    (writes : ∀ trace, Accounts trace pivot setting.agents replies → Writes trace setting.agents program) :
    setting.Goes (setting.Accounted pivot replies) (screen program) (fun _ => setting.Quiet) :=
  goes_weaken (goes_screen (fun _ => And.left) fun site accounted => writes site.trace accounted.2) (fun _ => id) (fun _ _ => And.left)

theorem rest_accounted (seconds : Int) :
    setting.Goes (setting.Accounted pivot replies) (sleep setting.fleet.net seconds) (fun _ => setting.Accounted pivot replies) := by
  have quiet : Go.Triple setting.Quiet (Go.change (setting.fleet.sleep seconds)) (fun _ => setting.Quiet) (Broken setting.long) :=
    Go.triple_change fun site ⟨floor,still⟩ => ⟨floor + 0,sleep_still seconds 0 (Int.le_max_left _ _) still⟩
  have remembers := (sleep_steady seconds).remembers (lasting_accounts pivot setting.agents replies) quiet
  exact goes_first (remembers.consequence (fun _ => id) (fun _ _ => id) (fun _ => And.left)) (sleep_steady seconds)

end Reports

section Patterns
variable {setting : Setting} (c : Coordinator)

theorem calm_testSym (soon : ∀ type, setting.long type ≤ 0) (same : setting.agents = c.symAgents) (loadRate : Int) :
    setting.Calm (testSymPattern setting.fleet.net c loadRate) := by
  have sym := symAgents_distinct c
  rw [← same] at sym
  rw [testSymPattern]
  split
  next => exact calm_crash
  next =>
    rw [← same]
    refine goes_bind (calm_startLoad sym _ _) fun _ => goes_bind (calm_rest _) fun _ => ?_
    refine goes_bind (calm_note (quotes_other _ (by decide))) fun _ => goes_bind (calm_note (quotes_other _ (by decide))) fun _ => ?_
    refine goes_bind (calm_note rfl) fun _ => ?_
    refine goes_bind (goes_startMeasure sym _ _ _) fun _ => goes_exists fun pivot => ?_
    refine goes_bind (goes_note (fun _ => Still.quiet) rfl) fun _ => goes_bind (goes_rest _) fun _ => ?_
    refine goes_bind (goes_reportLatency sym (soon _) _) fun results => goes_bind (rest_accounted _) fun _ => ?_
    refine goes_print fun trace accounts => writes_total accounts fun stats totals => ?_
    refine (writes_table totals).bind fun _ => (writes_computeStatsLatency _).bind fun aggLat => (writes_note rfl).bind fun _ => ?_
    refine (writes_latencyStats aggLat).bind fun _ => (writes_note rfl).bind fun _ => (writes_note rfl).bind fun _ => ?_
    exact writes_note rfl

theorem calm_loadThAgents (loadRate : Int) : setting.Calm (loadThAgents setting.fleet.net c loadRate) := by
  rw [loadThAgents]
  split
  next => exact calm_startLoad (asymAgents_distinct c).of_append_left _ _
  next => exact calm_pure _

theorem calm_testAsym (soon : ∀ type, setting.long type ≤ 0) (same : setting.agents = c.thAgents ++ c.ltAgents) (loadRate latencyRate : Int) :
    setting.Calm (testAsymPattern setting.fleet.net c loadRate latencyRate) := by
  have both := asymAgents_distinct c
  have lt := both.of_append_right
  have distinct := both
  rw [← same] at distinct
  rw [testAsymPattern,← same]
  refine goes_bind (calm_loadThAgents c loadRate) fun _ => goes_bind (calm_startLoad lt _ _) fun _ => goes_bind (calm_rest _) fun _ => ?_
  refine goes_bind (goes_startMeasure distinct _ _ _) fun _ => goes_exists fun pivot => ?_
  refine goes_bind (goes_note (fun _ => Still.quiet) rfl) fun _ => goes_bind (goes_rest _) fun _ => ?_
  refine goes_reportBoth same both soon _ _ fun throughput latency => ?_
  refine goes_print fun trace accounts => writes_total accounts fun stats totals => ?_
  refine (writes_table totals).bind fun _ => (writes_note rfl).bind fun _ => (writes_computeStatsLatency _).bind fun _ => ?_
  exact writes_pure _

theorem calm_step (soon : ∀ type, setting.long type ≤ 0) (same : setting.agents = c.thAgents ++ c.ltAgents) (passes : Nat)
    (startLoad endLoad step latencyRate : Int) :
    setting.Calm (stepPattern setting.fleet.net passes c startLoad endLoad step latencyRate) := by
  refine calm_loop (fun loadRate => ?_) passes startLoad
  rw [stepIteration]
  split
  next => exact goes_bind (calm_testAsym c soon same loadRate latencyRate) fun _ => goes_bind (calm_note rfl) fun _ => calm_pure _
  next => exact calm_pure _

theorem calm_corr (soon : ∀ type, setting.long type ≤ 0) (same : setting.agents = c.symAgents) (careless : setting.careless)
    (loadRate : Int) : setting.Calm (corrPattern setting.fleet.net c loadRate) := by
  refine goes_bind (calm_forEach (fun r => ?_) smallRates) fun _ => calm_pure _
  exact goes_bind (calm_note (quotes_other r (by decide))) fun _ => calm_ignoreError careless (calm_testSym {c with samplingRate := r} soon same loadRate)

/-- One iteration of the fixed pattern, in which a report on the throughput comes after a second. -/
theorem calm_iteration (second : setting.long reportThroughputType ≤ 1000000) (soon : setting.long reportLatencyType ≤ 0)
    (plan : Plan) (same : setting.agents = plan.agents) (distinct : plan.agents.Nodup) (loop : Loop) :
    setting.Calm (iteration setting.fleet.net plan loop) := by
  rw [← same] at distinct
  rw [iteration,← same]
  split
  next =>
    split
    next =>
      refine goes_bind (goes_startMeasure distinct _ _ _) fun _ => goes_exists fun pivot => ?_
      refine goes_bind (goes_note (fun _ => Still.quiet) rfl) fun _ => ?_
      refine goes_bind (goes_wait 1 1000000 (by decide)) fun _ => ?_
      refine goes_bind (goes_reportThroughput distinct second _) fun results => ?_
      exact goes_bind (goes_print fun trace accounts => writes_throughputPass accounts) fun _ => calm_pure _
    next =>
      refine goes_bind (goes_startMeasure distinct _ _ _) fun _ => goes_exists fun pivot => ?_
      refine goes_bind (goes_note (fun _ => Still.quiet) rfl) fun _ => ?_
      refine goes_bind (goes_note (fun _ => Still.quiet) (quotes_other _ (by decide))) fun _ => ?_
      refine goes_bind (goes_note (fun _ => Still.quiet) rfl) fun _ => goes_bind (goes_rest _) fun _ => ?_
      refine goes_bind (goes_reportLatency distinct soon _) fun results => ?_
      exact goes_bind (goes_print fun trace accounts => writes_latencyPass accounts) fun _ => calm_pure _
    next => exact calm_pure _
  next => exact calm_fail _

theorem calm_fixed (second : setting.long reportThroughputType ≤ 1000000) (soon : setting.long reportLatencyType ≤ 0)
    (same : setting.agents = c.symAgents) (passes : Nat) (loadRate ciSize : Int) :
    setting.Calm (fixedSymPattern setting.fleet.net passes c loadRate ciSize) := by
  have sym := symAgents_distinct c
  rw [fixedSymPattern]
  split
  next => exact calm_crash
  next =>
    refine goes_bind (calm_startLoad sym _ _) fun _ => goes_bind (calm_rest _) fun _ => ?_
    exact calm_loop (calm_iteration second soon (fixedPlan c loadRate ciSize) same sym) passes _

end Patterns

/-- A report is no shorter than nothing. -/
def anyTime : UInt32 → Int := fun _ => 0

def patternName (pattern : List Char) : List Char := (split ':' pattern).headD []

/-- The agents whose reports are printed. -/
def measured (agents : Coordinator) (pattern : List Char) : List Conn :=
  if patternName pattern = ['s','t','e','p'] ∨ (patternName pattern = ['t','e','s','t'] ∧ ¬0 < agents.symAgents.length) then
    agents.thAgents ++ agents.ltAgents
  else agents.symAgents

theorem calm_runExp {setting : Setting} (soon : ∀ type, setting.long type ≤ 0) (passes : Nat) (agents : Coordinator) (pattern : List Char)
    (latencyRate ciSize : Int) (same : setting.agents = measured agents pattern)
    (careless : patternName pattern = ['c','o','r','r'] → setting.careless) :
    setting.Calm (runExp setting.fleet.net passes agents pattern latencyRate ciSize) := by
  have late : setting.long reportThroughputType ≤ 1000000 := Int.le_trans (soon _) (by decide)
  rw [measured,patternName] at same
  rw [patternName] at careless
  rw [runExp]
  dsimp only
  split
  next fixed =>
    rw [fixed] at same
    split
    next => exact calm_fail _
    next =>
      refine goes_bind (calm_parsePart _ _ _) fun loadRate => calm_fixed _ late (soon _) ?_ passes loadRate ciSize
      exact same
  next =>
    split
    next step =>
      rw [if_pos (.inl step)] at same
      refine goes_bind (calm_parsePart _ _ _) fun startLoad => goes_bind (calm_parsePart _ _ _) fun step => ?_
      refine goes_bind (calm_parsePart _ _ _) fun endLoad => calm_step _ soon ?_ passes startLoad endLoad step latencyRate
      exact same
    next other =>
      split
      next test =>
        refine goes_bind (calm_parsePart _ _ _) fun loadRate => goes_bind (calm_parsePart _ _ _) fun samples => ?_
        split
        next symmetric =>
          rw [if_neg (fun either => either.elim other fun both => both.2 symmetric)] at same
          refine calm_testSym _ soon ?_ loadRate
          exact same
        next asymmetric =>
          rw [if_pos (.inr ⟨test,asymmetric⟩)] at same
          refine calm_testAsym _ soon ?_ loadRate latencyRate
          exact same
      next neither =>
        rw [if_neg (fun either => either.elim other fun both => neither both.1)] at same
        split
        next corr =>
          refine goes_bind (calm_parsePart _ _ _) fun loadRate => goes_bind (calm_parsePart _ _ _) fun samples => ?_
          refine calm_corr _ soon ?_ (careless corr) loadRate
          exact same
        next => exact calm_fail _

section Results
variable {setting : Setting} {clock : Int}

theorem deployed_fine : setting.Fine setting.Quiet (setting.fleet.deployed clock,[]) := by
  refine .inl ⟨⟨clock,⟨fun _ member => (nomatch member),List.Pairwise.nil,fun _ member => (nomatch member)⟩,Int.le_refl _,fun a => ?_⟩,
    fun _ member => nomatch member⟩
  refine ⟨rfl,rfl,⟨[],fun _ member => (nomatch member),rfl⟩,.nil,?_,fun _ known => nomatch known⟩
  intro past entry future split
  exact absurd split (by simp [agentLog,Fleet.deployed])

theorem Setting.Calm.ended {α : Type} {program : Go (Site × Screen) α} (calm : setting.Calm program) :
    setting.Fine setting.Ended (program (setting.fleet.deployed clock,[])).2 :=
  Go.Ends.always ((calm.consequence (fun _ => id) (fun _ _ fine => fine.imp .inl) (fun _ => id)).ends _ deployed_fine)

theorem sound_unfailed {trace : List Entry} (unfailed : ∀ entry ∈ trace, entry.isFailed = false) : sound trace = trace := by
  refine List.takeWhile_eq_self_iff.mpr fun entry member => ?_
  rw [unfailed entry member]
  rfl

theorem Setting.Ended.sound {site : Site} (ended : setting.Ended site) : Sound setting.long (sound site.trace) := by
  rcases ended with ⟨floor,orderly⟩ | ⟨past,a,rest,split,unfailed,consistent⟩
  · rw [sound_unfailed orderly.timed.unfailed]
    exact Orderly.sound orderly
  · have passes : ∀ entry ∈ past, (!entry.isFailed) = true := by
      intro entry member
      rw [unfailed entry member]
      rfl
    rw [split,Deployment.sound,List.takeWhile_append_of_pos passes,List.takeWhile_cons_of_neg Bool.false_ne_true,List.append_nil]
    exact consistent

theorem Setting.Calm.sound {α : Type} {program : Go (Site × Screen) α} (calm : setting.Calm program) :
    Sound setting.long (sound (program (setting.fleet.deployed clock,[])).2.1.trace) := by
  rcases @Setting.Calm.ended setting clock α program calm with ⟨ended,-⟩ | ⟨-,broken⟩
  · exact ended.sound
  · exact Setting.Ended.sound (.inr broken)

theorem Exchange.timely {a : Conn} {trace : List Entry} {done : List Exchange} {pending : List Entry}
    (ordered : (times trace).Pairwise (· ≤ ·)) (talk : conversation a trace = done.flatMap (Exchange.entries a) ++ pending)
    {exchange : Exchange} (member : exchange ∈ done) :
    exchange.asked ≤ exchange.handled ∧ exchange.handled ≤ exchange.collected := by
  have inside : (exchange.entries a).Sublist (conversation a trace) := by
    rw [talk,List.flatMap]
    exact (List.sublist_flatten_of_mem (List.mem_map_of_mem member)).trans (List.sublist_append_left _ _)
  have own := ordered.sublist ((inside.trans List.filter_sublist).filterMap Entry.time)
  obtain ⟨first,second⟩ := List.pairwise_cons.mp own
  exact ⟨first exchange.handled List.mem_cons_self,(List.pairwise_cons.mp second).1 exchange.collected List.mem_cons_self⟩

end Results

/-- An experiment of any pattern; only a `corr` goes on after a call that failed. -/
def experiment (fleet : Fleet) (agents : Coordinator) (pattern : List Char) : Setting where
  fleet := fleet
  long := anyTime
  positive _ := Int.le_refl 0
  agents := measured agents pattern
  careless := patternName pattern = ['c','o','r','r']

theorem experiment_calm (fleet : Fleet) (passes : Nat) (agents : Coordinator) (pattern : List Char) (latencyRate ciSize : Int) :
    (experiment fleet agents pattern).Calm (runExp fleet.net passes agents pattern latencyRate ciSize) :=
  calm_runExp (fun _ => Int.le_refl 0) passes agents pattern latencyRate ciSize rfl id

/-- The trace of an experiment, up to the first call that fails. -/
def experimentTrace (fleet : Fleet) (clock : Int) (passes : Nat) (agents : Coordinator) (pattern : List Char)
    (latencyRate ciSize : Int) : List Entry :=
  sound (runExp fleet.net passes agents pattern latencyRate ciSize (fleet.deployed clock,[])).2.1.trace

def fixedTrace (fleet : Fleet) (clock : Int) (passes : Nat) (c : Coordinator) (loadRate ciSize : Int) : List Entry :=
  sound (fixedSymPattern fleet.net passes c loadRate ciSize (fleet.deployed clock,[])).2.1.trace

theorem calls_synchronous (fleet : Fleet) (clock : Int) (passes : Nat) (agents : Coordinator) (pattern : List Char)
    (latencyRate ciSize : Int) (a : Conn) :
    ∃ (done : List Exchange) (stage : Stage),
      conversation a (experimentTrace fleet clock passes agents pattern latencyRate ciSize) =
        done.flatMap (Exchange.entries a) ++ stage.entries a ∧
      ∀ exchange ∈ done, Fits exchange.request exchange.reply ∧ exchange.asked ≤ exchange.handled ∧
        exchange.handled ≤ exchange.collected := by
  obtain ⟨ordered,conversed,-⟩ := (experiment_calm fleet passes agents pattern latencyRate ciSize).sound
  obtain ⟨stage,done,fitting,talk⟩ := conversed a
  exact ⟨done,stage,talk,fun exchange member => ⟨fitting exchange member,Exchange.timely ordered talk member⟩⟩

/-- One throughput thread that gets a reply of 64 bytes between the calls, and an agent that is heard and answers in one turn. -/
def promptFleet : Fleet where
  config _ := MeasureWindow.exampleConfig
  generators _ := .exponential
  threads _ := [⟨.zero,⟨0,fun _ => Timestamping.Timespec.zero⟩⟩]
  aggStats _ := .zero
  qsort := Qsort.insertion
  schedule _ := ⟨[.tick 10,.resume 0,.handle 0 [],.worker 0 0 (.throughputRx ⟨64,1⟩) 0],false⟩

set_option maxRecDepth 10000 in
example : (conversation 0 (fixedTrace promptFleet 0 1 (FixedLoop.started FixedTermination.exampleAgents) 1000 10)).length = 9 := by decide +kernel

/-- Only the reports on the throughput have a window whose length is known beforehand. -/
def oneSecond (type : UInt32) : Int := if type = reportThroughputType then 1000000 else 0

/-- The fixed pattern alone. -/
def fixedExperiment (fleet : Fleet) (c : Coordinator) : Setting where
  fleet := fleet
  long := oneSecond
  positive type := by
    rw [oneSecond]
    split <;> decide
  agents := c.symAgents
  careless := False

end Lancet.Experiments
