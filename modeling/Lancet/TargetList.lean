import Lancet.Foundation.CString

/-! The targets of an agent's command line (args.c): `-s ip:port,ip:port`. The list is cut in
place by two nested `strtok_r`, each with its own input pointer as the saved one. -/
namespace Lancet.TargetList
open Foundation CString

structure HostTuple where
  ip : UInt32
  port : UInt16
  deriving DecidableEq, Repr

/-- A number of a byte; `inet_pton` takes no leading zero. -/
def octet (text : List Char) : Option UInt32 :=
  if text ≠ [] ∧ text.length ≤ 3 ∧ text.all (·.isDigit) = true ∧ decimal text ≤ 255 ∧
      (text.head? ≠ some '0' ∨ text.length = 1) then
    some (UInt32.ofNat (decimal text))
  else none

/-- `inet_pton(AF_INET, ...)` for a dotted quad: the address in network order, or none if there
is nothing to write. -/
def inetPton (text : List Char) : Option UInt32 :=
  match (text.splitOn '.').map octet with
  | [some a,some b,some c,some d] => some (a + b * 2^8 + c * 2^16 + d * 2^24)
  | _ => none

/-- How the option ends; a missing token is a null pointer in a conversion. -/
inductive Ending where
  | done
  | assertion
  | missingToken
  | running
  deriving DecidableEq, Repr

structure Parsing where
  memory : List Char
  targets : List HostTuple
  sinAddr : UInt32
  deriving DecidableEq, Repr

/-- The body of the loop, for the entry at `token1`. -/
def addTarget (parsing : Parsing) (token1 : Nat) : Parsing × Option Ending :=
  let first := strtokR ':' parsing.memory token1
  match first.token with
  | none => ({parsing with memory := first.memory},some .missingToken)
  | some token2 =>
    -- an address that is not one leaves `sa` as it was
    let sinAddr := (inetPton (str first.memory token2)).getD parsing.sinAddr
    let second := strtokR ':' first.memory first.save
    match second.token with
    | none => (⟨second.memory,parsing.targets,sinAddr⟩,some .missingToken)
    | some token2 =>
      let target : HostTuple := ⟨sinAddr,UInt16.ofInt (atoi (str second.memory token2))⟩
      let targets := parsing.targets ++ [target]
      (⟨second.memory,targets,sinAddr⟩,if targets.length < 4096 then none else some .assertion)

def targetLoop : Nat → Parsing → Nat → Parsing × Ending
  | 0, parsing, _ => (parsing,.running)
  | passes + 1, parsing, optarg =>
    let next := strtokR ',' parsing.memory optarg
    match next.token with
    | none => ({parsing with memory := next.memory},.done)
    | some token1 => match addTarget {parsing with memory := next.memory} token1 with
      | (parsing,some ending) => (parsing,ending)
      | (parsing,none) => targetLoop passes parsing next.save

/-- The option `-s` on a fresh configuration; `sa` is not initialised. Every pass but the last
adds a target. -/
def parseTargets (memory : List Char) (optarg : Nat) (sinAddr : UInt32) : List HostTuple × Ending :=
  let ended := targetLoop 4097 ⟨memory,[],sinAddr⟩ optarg
  (ended.1.targets,ended.2)

/-- The body of the loop on the text of the entry alone. -/
def recordEntry (sinAddr : UInt32) (targets : List HostTuple) (entry : List Char) : List HostTuple × UInt32 × Option Ending :=
  match nextToken ':' entry with
  | none => (targets,sinAddr,some .missingToken)
  | some (ip,rest) =>
    let sinAddr := (inetPton ip).getD sinAddr
    match nextToken ':' rest with
    | none => (targets,sinAddr,some .missingToken)
    | some (port,_) =>
      let targets := targets ++ [⟨sinAddr,UInt16.ofInt (atoi port)⟩]
      (targets,sinAddr,if targets.length < 4096 then none else some .assertion)

def recordEntries (sinAddr : UInt32) (targets : List HostTuple) : List (List Char) → List HostTuple × Ending
  | [] => (targets,.done)
  | entry :: entries => match recordEntry sinAddr targets entry with
    | (targets,_,some ending) => (targets,ending)
    | (targets,sinAddr,none) => recordEntries sinAddr targets entries

/-- The target of an entry, from its own address and port. -/
def ownTarget (entry : List Char) : Option HostTuple :=
  match tokens ':' entry with
  | ip :: port :: _ => (inetPton ip).map (fun addr => ⟨addr,UInt16.ofInt (atoi port)⟩)
  | _ => none

section Entries
variable {sinAddr : UInt32} {targets : List HostTuple} {entry : List Char}

/-- An entry with an address and a port adds a target, its own one if the address is one. -/
theorem recordEntry_fields {ip port : List Char} {more : List (List Char)} (fields : tokens ':' entry = ip :: port :: more) :
    recordEntry sinAddr targets entry = (targets ++ [⟨(inetPton ip).getD sinAddr,UInt16.ofInt (atoi port)⟩],
      (inetPton ip).getD sinAddr,if targets.length + 1 < 4096 then none else some .assertion) := by
  rw [tokens_next] at fields
  rcases first : nextToken ':' entry with _ | ⟨ip',rest⟩
  · rw [first] at fields
    cases fields
  · rw [first] at fields
    obtain ⟨rfl,later⟩ := List.cons.inj fields
    rw [tokens_next] at later
    rcases second : nextToken ':' rest with _ | ⟨port',rest'⟩
    · rw [second] at later
      cases later
    · rw [second] at later
      obtain ⟨rfl,-⟩ := List.cons.inj later
      rw [recordEntry,first]
      dsimp only
      rw [second]
      dsimp only
      rw [List.length_append,List.length_singleton]

theorem recordEntry_missing (fields : ∀ ip port more, tokens ':' entry ≠ ip :: port :: more) :
    (recordEntry sinAddr targets entry).1 = targets ∧ (recordEntry sinAddr targets entry).2.2 = some .missingToken := by
  rw [recordEntry]
  rcases first : nextToken ':' entry with _ | ⟨ip,rest⟩
  · exact ⟨rfl,rfl⟩
  · dsimp only
    rcases second : nextToken ':' rest with _ | ⟨port,rest'⟩
    · exact ⟨rfl,rfl⟩
    · refine absurd ?_ (fields ip port (tokens ':' rest'))
      rw [tokens_next,first]
      dsimp only
      rw [tokens_next,second]

theorem fields_cases (entry : List Char) : (∃ ip port more, tokens ':' entry = ip :: port :: more) ∨
    ∀ ip port more, tokens ':' entry ≠ ip :: port :: more := by
  rcases tokens ':' entry with _ | ⟨ip,_ | ⟨port,more⟩⟩
  · exact .inr fun _ _ _ same => by cases same
  · exact .inr fun _ _ _ same => by cases same
  · exact .inl ⟨ip,port,more,rfl⟩

theorem recordEntry_next {targets' : List HostTuple} {sinAddr' : UInt32}
    (recorded : recordEntry sinAddr targets entry = (targets',sinAddr',none)) :
    targets'.length = targets.length + 1 ∧ targets'.length < 4096 := by
  rcases fields_cases entry with ⟨ip,port,more,fields⟩ | fields
  · rw [recordEntry_fields fields] at recorded
    simp only [Prod.mk.injEq,ite_eq_left_iff] at recorded
    obtain ⟨rfl,-,below⟩ := recorded
    rw [List.length_append,List.length_singleton]
    refine ⟨rfl,Classical.byContradiction fun full => ?_⟩
    cases below full
  · have missing := (@recordEntry_missing sinAddr targets entry fields).2
    rw [recorded] at missing
    cases missing

end Entries

section Refinement

/-- The entry is read as it stands, and nothing behind it is touched. -/
theorem addTarget_entry {parsing : Parsing} {token1 : Nat} {entry : List Char} (held : At parsing.memory token1 entry) :
    ∃ memory, addTarget parsing token1 =
      (⟨memory,(recordEntry parsing.sinAddr parsing.targets entry).1,(recordEntry parsing.sinAddr parsing.targets entry).2.1⟩,
        (recordEntry parsing.sinAddr parsing.targets entry).2.2) ∧
      ∀ pointer text, At parsing.memory pointer text → token1 + entry.length ≤ pointer → At memory pointer text := by
  rcases first : nextToken ':' entry with _ | ⟨ip,rest⟩
  · obtain ⟨ended,same⟩ := strtokR_none held first
    refine ⟨parsing.memory,?_,fun _ _ other _ => other⟩
    rw [addTarget,ended,same,recordEntry,first]
  · obtain ⟨start,taken⟩ := strtokR_some held first
    rcases second : nextToken ':' rest with _ | ⟨port,rest'⟩
    · obtain ⟨ended,same⟩ := strtokR_none taken.restHeld second
      refine ⟨(strtokR ':' parsing.memory token1).memory,?_,fun pointer text other behind =>
        taken.kept pointer text other (.inl behind)⟩
      rw [addTarget,taken.found,recordEntry,first]
      dsimp only
      rw [ended,same,second,taken.tokenHeld.str_eq]
    · obtain ⟨start',taken'⟩ := strtokR_some taken.restHeld second
      refine ⟨(strtokR ':' (strtokR ':' parsing.memory token1).memory (strtokR ':' parsing.memory token1).save).memory,?_,
        fun pointer text other behind => ?_⟩
      · rw [addTarget,taken.found,recordEntry,first]
        dsimp only
        rw [taken'.found,second,taken.tokenHeld.str_eq]
        dsimp only
        rw [taken'.tokenHeld.str_eq]
      · have within := taken.within
        exact taken'.kept pointer text (taken.kept pointer text other (.inl behind)) (.inl (by omega))

/-- The loop records the entries of its string one after the other. -/
theorem targetLoop_entries {passes : Nat} {parsing : Parsing} {optarg : Nat} {text : List Char}
    (held : At parsing.memory optarg text) (enough : 4096 < parsing.targets.length + passes) (room : parsing.targets.length < 4096) :
    ((targetLoop passes parsing optarg).1.targets,(targetLoop passes parsing optarg).2) =
      recordEntries parsing.sinAddr parsing.targets (tokens ',' text) := by
  induction passes generalizing parsing optarg text with
  | zero => omega
  | succ passes ih =>
    rw [targetLoop,tokens_next]
    rcases next : nextToken ',' text with _ | ⟨entry,rest⟩
    · obtain ⟨ended,-⟩ := strtokR_none held next
      rw [ended]
      rfl
    · obtain ⟨start,taken⟩ := strtokR_some held next
      obtain ⟨memory,added,kept⟩ := @addTarget_entry ⟨(strtokR ',' parsing.memory optarg).memory,parsing.targets,parsing.sinAddr⟩
        start entry taken.tokenHeld
      have restHeld : At memory (strtokR ',' parsing.memory optarg).save rest := kept _ _ taken.restHeld taken.before
      rw [taken.found]
      dsimp only
      rw [added,recordEntries]
      rcases recorded : recordEntry parsing.sinAddr parsing.targets entry with ⟨targets,sinAddr,_ | ending⟩
      · obtain ⟨more,below⟩ := recordEntry_next recorded
        exact @ih ⟨memory,targets,sinAddr⟩ (strtokR ',' parsing.memory optarg).save rest restHeld (by dsimp only; omega) below
      · rfl

theorem parseTargets_entries {memory : List Char} {optarg : Nat} {text : List Char} (held : At memory optarg text)
    (sinAddr : UInt32) : parseTargets memory optarg sinAddr = recordEntries sinAddr [] (tokens ',' text) :=
  @targetLoop_entries 4097 ⟨memory,[],sinAddr⟩ optarg text held (Nat.lt_succ_self 4096) (Nat.succ_pos 4095)

end Refinement

section Soundness

/-- No conversion lacks its token, and every target added is that of its entry. -/
def Sound (targets : List HostTuple) (entries : List (List Char)) (result : List HostTuple × Ending) : Prop :=
  result.2 ≠ .missingToken ∧ ∃ added, result.1 = targets ++ added ∧
    (entries.take added.length).map ownTarget = added.map some

theorem recordEntries_adds (sinAddr : UInt32) (targets : List HostTuple) (entries : List (List Char)) :
    ∃ added, (recordEntries sinAddr targets entries).1 = targets ++ added := by
  induction entries generalizing sinAddr targets with
  | nil => exact ⟨[],(List.append_nil _).symm⟩
  | cons entry entries ih =>
    rw [recordEntries]
    rcases fields_cases entry with ⟨ip,port,more,fields⟩ | fields
    · rw [recordEntry_fields fields]
      by_cases below : targets.length + 1 < 4096
      · rw [if_pos below]
        obtain ⟨added,same⟩ := ih ((inetPton ip).getD sinAddr) (targets ++ [⟨(inetPton ip).getD sinAddr,UInt16.ofInt (atoi port)⟩])
        exact ⟨_,same.trans (List.append_assoc _ _ _)⟩
      · rw [if_neg below]
        exact ⟨_,rfl⟩
    · obtain ⟨same,missing⟩ := @recordEntry_missing sinAddr targets entry fields
      rcases recorded : recordEntry sinAddr targets entry with ⟨targets',sinAddr',_ | ending⟩
      · rw [recorded] at missing
        cases missing
      · rw [recorded] at same
        exact ⟨[],same.trans (List.append_nil _).symm⟩

theorem ownTarget_fields {entry ip port : List Char} {more : List (List Char)} (fields : tokens ':' entry = ip :: port :: more) :
    ownTarget entry = (inetPton ip).map (fun addr => ⟨addr,UInt16.ofInt (atoi port)⟩) := by
  rw [ownTarget,fields]

theorem ownTarget_missing {entry : List Char} (fields : ∀ ip port more, tokens ':' entry ≠ ip :: port :: more) :
    ownTarget entry = none := by
  rw [ownTarget]
  split
  next ip port more given => exact absurd given (fields ip port more)
  next => rfl

/-- The target of an entry is its own if and only if its address is one. -/
theorem own_iff {entry ip port : List Char} {more : List (List Char)} (fields : tokens ':' entry = ip :: port :: more)
    (sinAddr : UInt32) :
    ownTarget entry = some ⟨(inetPton ip).getD sinAddr,UInt16.ofInt (atoi port)⟩ ↔ (ownTarget entry).isSome = true := by
  rw [ownTarget_fields fields]
  cases inetPton ip <;> simp

theorem sound_cons {targets : List HostTuple} {entry : List Char} {target : HostTuple} {entries : List (List Char)}
    {result : List HostTuple × Ending} (adds : ∃ added, result.1 = (targets ++ [target]) ++ added) :
    Sound targets (entry :: entries) result ↔ ownTarget entry = some target ∧ Sound (targets ++ [target]) entries result := by
  obtain ⟨added,same⟩ := adds
  have unique {before : List HostTuple} {more : List HostTuple} (here : result.1 = before ++ more) {more' : List HostTuple}
      (here' : result.1 = before ++ more') : more' = more := List.append_cancel_left (here'.symm.trans here)
  constructor
  · rintro ⟨given,added',same',own⟩
    have joined : result.1 = targets ++ (target :: added) := by rw [same,List.append_assoc,List.singleton_append]
    rw [unique joined same',List.length_cons,List.take_succ_cons,List.map_cons,List.map_cons] at own
    obtain ⟨first,rest⟩ := List.cons.inj own
    exact ⟨first,given,added,same,rest⟩
  · rintro ⟨first,given,added',same',own⟩
    refine ⟨given,target :: added',by rw [same',List.append_assoc,List.singleton_append],?_⟩
    rw [List.length_cons,List.take_succ_cons,List.map_cons,List.map_cons,first,own]

theorem recordEntries_sound (sinAddr : UInt32) {targets : List HostTuple} (room : targets.length < 4096)
    (entries : List (List Char)) : Sound targets entries (recordEntries sinAddr targets entries) ↔
      ∀ entry ∈ entries.take (4096 - targets.length), (ownTarget entry).isSome = true := by
  induction entries generalizing sinAddr targets with
  | nil =>
    refine iff_of_true ⟨by simp [recordEntries],[],(List.append_nil _).symm,rfl⟩ ?_
    simp
  | cons entry entries ih =>
    have one_more : 4096 - targets.length = 4096 - (targets.length + 1) + 1 := by omega
    rw [one_more,List.take_succ_cons,List.forall_mem_cons,recordEntries]
    rcases fields_cases entry with ⟨ip,port,more,fields⟩ | fields
    · rw [recordEntry_fields fields,← own_iff fields sinAddr]
      generalize (⟨(inetPton ip).getD sinAddr,UInt16.ofInt (atoi port)⟩ : HostTuple) = target
      have length : (targets ++ [target]).length = targets.length + 1 := by rw [List.length_append,List.length_singleton]
      by_cases below : targets.length + 1 < 4096
      · rw [if_pos below]
        dsimp only
        rw [sound_cons (recordEntries_adds _ _ _),ih _ (length ▸ below),length]
      · have full : 4096 - (targets.length + 1) = 0 := by omega
        rw [if_neg below,full]
        dsimp only
        rw [sound_cons ⟨[],(List.append_nil _).symm⟩]
        refine and_congr_right fun _ => iff_of_true ⟨by simp,[],(List.append_nil _).symm,rfl⟩ ?_
        simp
    · obtain ⟨same,missing⟩ := @recordEntry_missing sinAddr targets entry fields
      rcases recorded : recordEntry sinAddr targets entry with ⟨targets',sinAddr',_ | ending⟩
      · rw [recorded] at missing
        cases missing
      · rw [recorded] at missing
        dsimp only at missing ⊢
        rw [Option.some.inj missing,ownTarget_missing fields]
        exact iff_of_false (fun sound => sound.1 rfl) (fun both => by cases both.1)

/-- Where every target is its own, the list is recorded whole or up to the limit. -/
theorem recordEntries_own (sinAddr : UInt32) {targets : List HostTuple} (room : targets.length < 4096)
    {entries : List (List Char)} (own : ∀ entry ∈ entries.take (4096 - targets.length), (ownTarget entry).isSome = true) :
    recordEntries sinAddr targets entries = if targets.length + entries.length < 4096 then
        (targets ++ entries.filterMap ownTarget,.done)
      else (targets ++ (entries.take (4096 - targets.length)).filterMap ownTarget,.assertion) := by
  induction entries generalizing sinAddr targets with
  | nil =>
    rw [recordEntries,List.length_nil,Nat.add_zero,if_pos room,List.filterMap_nil,List.append_nil]
  | cons entry entries ih =>
    have one_more : 4096 - targets.length = 4096 - (targets.length + 1) + 1 := by omega
    rw [one_more,List.take_succ_cons,List.forall_mem_cons] at own
    obtain ⟨here,later⟩ := own
    rcases fields_cases entry with ⟨ip,port,more,fields⟩ | fields
    · have target := (own_iff fields sinAddr).mpr here
      rw [recordEntries,recordEntry_fields fields,one_more,List.take_succ_cons,List.filterMap_cons_some target,
        List.filterMap_cons_some target]
      generalize (⟨(inetPton ip).getD sinAddr,UInt16.ofInt (atoi port)⟩ : HostTuple) = target
      have length : (targets ++ [target]).length = targets.length + 1 := by rw [List.length_append,List.length_singleton]
      by_cases below : targets.length + 1 < 4096
      · rw [if_pos below]
        dsimp only
        rw [ih _ (length ▸ below) (by rwa [length]),length,List.length_cons,List.append_assoc,List.append_assoc,
          List.singleton_append,List.singleton_append]
        congr 1
        exact propext ⟨fun less => by omega,fun less => by omega⟩
      · have nomore : 4096 - (targets.length + 1) = 0 := by omega
        have full : ¬targets.length + (entry :: entries).length < 4096 := by
          rw [List.length_cons]
          omega
        rw [if_neg below,if_neg full,nomore,List.take_zero,List.filterMap_nil]
    · rw [ownTarget_missing fields] at here
      cases here

end Soundness

/-- `ip:port`, a dotted quad and a number of a port. -/
inductive EntryDenotes : List Char → HostTuple → Prop
  | mk {ip port : List Char} {addr : UInt32} (quad : inetPton ip = some addr) (nonempty : port ≠ [])
      (digits : ∀ char ∈ port, char.isDigit = true) (range : decimal port ≤ 65535) :
      EntryDenotes (ip ++ ':' :: port) ⟨addr,UInt16.ofNat (decimal port)⟩

/-- `ip:port(,ip:port)*` -/
inductive Denotes : List Char → List HostTuple → Prop
  | single {entry : List Char} {target : HostTuple} (first : EntryDenotes entry target) : Denotes entry [target]
  | more {entry rest : List Char} {target : HostTuple} {targets : List HostTuple} (first : EntryDenotes entry target)
      (later : Denotes rest targets) : Denotes (entry ++ ',' :: rest) (target :: targets)

section Grammar

theorem octet_digits {text : List Char} (valid : (octet text).isSome = true) : text ≠ [] ∧ ∀ char ∈ text, char.isDigit = true := by
  rw [octet] at valid
  split at valid
  next given => exact ⟨given.1,List.all_eq_true.mp given.2.2.1⟩
  next => cases valid

/-- A dotted quad has digits and dots only. -/
theorem inetPton_chars {ip : List Char} {addr : UInt32} (quad : inetPton ip = some addr) :
    ip ≠ [] ∧ ∀ char ∈ ip, char.isDigit = true ∨ char = '.' := by
  have joined : ['.'].intercalate (ip.splitOn '.') = ip := List.intercalate_splitOn '.'
  rw [inetPton] at quad
  split at quad
  next a b c d parts =>
    rcases pieces : ip.splitOn '.' with _ | ⟨p,_ | ⟨q,_ | ⟨r,_ | ⟨s,_ | _⟩⟩⟩⟩
    all_goals
      rw [pieces] at parts
      simp only [List.map_cons,List.map_nil,List.cons.injEq,reduceCtorEq,and_false] at parts
    obtain ⟨first,second,third,fourth,-⟩ := parts
    have digitsP := octet_digits (Option.isSome_of_eq_some first)
    have digitsQ := octet_digits (Option.isSome_of_eq_some second)
    have digitsR := octet_digits (Option.isSome_of_eq_some third)
    have digitsS := octet_digits (Option.isSome_of_eq_some fourth)
    have whole : ip = p ++ '.' :: (q ++ '.' :: (r ++ '.' :: s)) := by
      rw [← joined,pieces]
      simp [List.intercalate]
    rw [whole]
    refine ⟨by simp,fun char inside => ?_⟩
    simp only [List.mem_append,List.mem_cons] at inside
    rcases inside with inP | rfl | inQ | rfl | inR | rfl | inS
    · exact .inl (digitsP.2 char inP)
    · exact .inr rfl
    · exact .inl (digitsQ.2 char inQ)
    · exact .inr rfl
    · exact .inl (digitsR.2 char inR)
    · exact .inr rfl
    · exact .inl (digitsS.2 char inS)
  next => cases quad

theorem inetPton_free {ip : List Char} {addr : UInt32} (quad : inetPton ip = some addr) {delim : Char}
    (other : delim.isDigit = false) (no_dot : delim ≠ '.') : delim ∉ ip := by
  intro inside
  rcases (inetPton_chars quad).2 delim inside with digit | dot
  · exact isDigit_ne digit other rfl
  · exact no_dot dot

theorem entry_own {entry : List Char} {target : HostTuple} (denotes : EntryDenotes entry target) :
    entry ≠ [] ∧ ',' ∉ entry ∧ ownTarget entry = some target := by
  cases denotes with
  | @mk ip port addr quad nonempty digits range =>
    have no_colon : ':' ∉ port := fun inside => isDigit_ne (digits _ inside) (by decide) rfl
    have no_comma : ',' ∉ port := fun inside => isDigit_ne (digits _ inside) (by decide) rfl
    have fields : tokens ':' (ip ++ ':' :: port) = [ip,port] := by
      rw [tokens_part (inetPton_chars quad).1 (inetPton_free quad (by decide) (by decide)),tokens_single nonempty no_colon]
    have number : UInt16.ofInt (atoi port) = UInt16.ofNat (decimal port) := by
      have small : (decimal port : Int) % 2^16 = decimal port := Int.emod_eq_of_lt (Int.natCast_nonneg _) (by omega)
      rw [atoi_decimal nonempty digits (by omega),UInt16.ofInt,small,Int.toNat_natCast]
    refine ⟨by simp,?_,?_⟩
    · simp only [List.mem_append,List.mem_cons,not_or]
      exact ⟨inetPton_free quad (by decide) (by decide),by decide,no_comma⟩
    · rw [ownTarget_fields fields,quad,Option.map_some,number]

theorem denotes_entries {text : List Char} {targets : List HostTuple} (denotes : Denotes text targets) :
    (tokens ',' text).map ownTarget = targets.map some := by
  induction denotes with
  | single first =>
    obtain ⟨nonempty,free,own⟩ := entry_own first
    rw [tokens_single nonempty free,List.map_singleton,own,List.map_singleton]
  | more first later ih =>
    obtain ⟨nonempty,free,own⟩ := entry_own first
    rw [tokens_part nonempty free,List.map_cons,own,ih,List.map_cons]

end Grammar

/-- What is asked of the list given with `-s`, for what the option records and how it ends. -/
structure Meets (text : List Char) (result : List HostTuple × Ending) : Prop where
  accepts : ∀ targets, Denotes text targets → targets.length ≤ 4095 → result = (targets,.done)
  rejects : (¬∃ targets, Denotes text targets ∧ targets.length ≤ 4095) → result.2 = .assertion
  own : ((tokens ',' text).take result.1.length).map ownTarget = result.1.map some
  converts : result.2 ≠ .missingToken

/-- The text is of the grammar, or the assertion stops it at its 4096th entry and the entries up
to there have addresses and ports. -/
def Handled (text : List Char) : Prop :=
  (∃ targets, Denotes text targets ∧ targets.length ≤ 4095) ∨
    (4096 ≤ (tokens ',' text).length ∧ ∀ entry ∈ (tokens ',' text).take 4096, (ownTarget entry).isSome = true)

theorem meets_sound {text : List Char} {result : List HostTuple × Ending} (meets : Meets text result) :
    Sound [] (tokens ',' text) result :=
  ⟨meets.converts,result.1,rfl,meets.own⟩

theorem denotes_own {text : List Char} {targets : List HostTuple} (denotes : Denotes text targets) :
    (∀ entry ∈ tokens ',' text, (ownTarget entry).isSome = true) ∧ (tokens ',' text).filterMap ownTarget = targets ∧
      (tokens ',' text).length = targets.length := by
  have entries := denotes_entries denotes
  refine ⟨fun entry inside => ?_,?_,by simpa using congrArg List.length entries⟩
  · have image : ownTarget entry ∈ targets.map some := entries ▸ List.mem_map_of_mem inside
    obtain ⟨target,-,own⟩ := List.mem_map.mp image
    rw [← own]
    rfl
  · have collected := congrArg (List.filterMap id) entries
    rwa [List.filterMap_map,List.filterMap_map,Function.id_comp,Function.id_comp,List.filterMap_some] at collected

/-- The list is taken as asked for exactly when it is of the grammar, or runs into the assertion
with sound entries only. -/
theorem target_list_iff {memory : List Char} {optarg : Nat} {text : List Char} (held : At memory optarg text)
    (sinAddr : UInt32) : Meets text (parseTargets memory optarg sinAddr) ↔ Handled text := by
  rw [parseTargets_entries held]
  have sound := @recordEntries_sound sinAddr [] (Nat.succ_pos 4095) (tokens ',' text)
  have whole := @recordEntries_own sinAddr [] (Nat.succ_pos 4095) (tokens ',' text)
  simp only [List.length_nil,Nat.zero_add,Nat.sub_zero,List.nil_append] at sound whole
  constructor
  · intro meets
    by_cases grammar : ∃ targets, Denotes text targets ∧ targets.length ≤ 4095
    · exact .inl grammar
    · have own := sound.mp (meets_sound meets)
      refine .inr ⟨Nat.not_lt.mp fun few => ?_,own⟩
      have ended := meets.rejects grammar
      rw [whole own,if_pos few] at ended
      cases ended
  · intro handled
    have own : ∀ entry ∈ (tokens ',' text).take 4096, (ownTarget entry).isSome = true := by
      rcases handled with ⟨targets,denotes,-⟩ | ⟨-,own⟩
      · exact fun entry inside => (denotes_own denotes).1 entry (List.mem_of_mem_take inside)
      · exact own
    obtain ⟨converts,added,same,recorded⟩ := sound.mpr own
    rw [List.nil_append] at same
    refine ⟨fun targets denotes few => ?_,fun outside => ?_,same ▸ recorded,converts⟩
    · obtain ⟨-,collected,length⟩ := denotes_own denotes
      rw [whole own,if_pos (by omega),collected]
    · rcases handled with grammar | ⟨many,-⟩
      · exact absurd grammar outside
      · rw [whole own,if_neg (by omega)]

def twoTargets : List Char :=
  ("10.0.0.1".toList ++ ':' :: "80".toList) ++ ',' :: ("10.0.0.2".toList ++ ':' :: "65535".toList)

theorem target_list_two_targets : Meets twoTargets (parseTargets (twoTargets ++ [nul]) 0 0) :=
  (target_list_iff ⟨by decide,[],rfl⟩ 0).mpr (.inl ⟨[⟨0x0100000a,80⟩,⟨0x0200000a,65535⟩],
    .more (.mk (by decide) (by decide) (List.all_eq_true.mp rfl) (by decide))
      (.single (.mk (by decide) (by decide) (List.all_eq_true.mp rfl) (by decide))),by decide⟩)

/-- A name in place of an address is recorded with the address of the entry before. -/
theorem name_takes_last_address : parseTargets ("10.0.0.1:80,nonsense:81".toList ++ [nul]) 0 0 =
      ([⟨0x0100000a,80⟩,⟨0x0100000a,81⟩],.done) ∧
    ¬Meets "10.0.0.1:80,nonsense:81".toList (parseTargets ("10.0.0.1:80,nonsense:81".toList ++ [nul]) 0 0) := by
  have held : At ("10.0.0.1:80,nonsense:81".toList ++ [nul]) 0 "10.0.0.1:80,nonsense:81".toList := ⟨by decide,[],rfl⟩
  rw [parseTargets_entries held]
  refine ⟨by decide,fun meets => ?_⟩
  have own := (@recordEntries_sound 0 [] (Nat.succ_pos 4095) _).mp (meets_sound meets) "nonsense:81".toList (by decide)
  exact absurd own (by decide)

end Lancet.TargetList
