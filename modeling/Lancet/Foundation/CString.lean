import Mathlib

/-! Strings of C in a memory of characters, each up to its terminator, and `strtok_r`, which
cuts its tokens out in place. What it cuts is also stated on the texts alone. -/
namespace Foundation.CString

def nul : Char := Char.ofNat 0

/-- The string at a pointer. -/
def str (memory : List Char) (pointer : Nat) : List Char := (memory.drop pointer).takeWhile (· ≠ nul)

/-- What `strtok_r` returns, the pointer it saves, and the memory after it. -/
structure Cut where
  token : Option Nat
  save : Nat
  memory : List Char
  deriving DecidableEq, Repr

def strtokR (delim : Char) (memory : List Char) (s : Nat) : Cut :=
  let start := s + ((str memory s).takeWhile (· = delim)).length
  let stop := start + ((str memory start).takeWhile (· ≠ delim)).length
  if str memory start = [] then ⟨none,start,memory⟩
  else if str memory stop = [] then ⟨some start,stop,memory⟩
  else ⟨some start,stop + 1,memory.set stop nul⟩

/-- The first token of a text and what is left behind its delimiter. -/
def nextToken (delim : Char) (text : List Char) : Option (List Char × List Char) :=
  let body := text.dropWhile (· = delim)
  if body = [] then none else some (body.takeWhile (· ≠ delim),(body.dropWhile (· ≠ delim)).tail)

/-- All tokens of a text. -/
def tokens (delim : Char) (text : List Char) : List (List Char) := (text.splitOn delim).filter (· ≠ [])

section Texts
variable {delim : Char}

/-- A token with the delimiters before it. -/
structure Led (delim : Char) (lead token : List Char) : Prop where
  delims : ∀ char ∈ lead, char = delim
  nonempty : token ≠ []
  free : delim ∉ token

theorem text_cases (delim : Char) (text : List Char) : (∀ char ∈ text, char = delim) ∨
    ∃ lead token, Led delim lead token ∧ (text = lead ++ token ∨ ∃ rest, text = lead ++ (token ++ delim :: rest)) := by
  induction text with
  | nil => exact .inl fun char listed => absurd listed List.not_mem_nil
  | cons first text ih =>
    by_cases here : first = delim
    · rcases ih with blank | ⟨lead,token,led,shape⟩
      · left
        intro char inside
        rcases List.mem_cons.mp inside with rfl | later
        · exact here
        · exact blank char later
      · refine .inr ⟨first :: lead,token,⟨?_,led.nonempty,led.free⟩,?_⟩
        · intro char inside
          rcases List.mem_cons.mp inside with rfl | later
          · exact here
          · exact led.delims char later
        · rcases shape with rfl | ⟨rest,rfl⟩
          · exact .inl rfl
          · exact .inr ⟨rest,rfl⟩
    · right
      by_cases more : delim ∈ text
      · obtain ⟨before,rest,rfl,free⟩ := List.eq_append_cons_of_mem more
        refine ⟨[],first :: before,⟨by simp,List.cons_ne_nil _ _,?_⟩,.inr ⟨rest,rfl⟩⟩
        exact fun inside => (List.mem_cons.mp inside).elim (fun same => here same.symm) free
      · refine ⟨[],first :: text,⟨by simp,List.cons_ne_nil _ _,?_⟩,.inl rfl⟩
        exact fun inside => (List.mem_cons.mp inside).elim (fun same => here same.symm) more

section Scans
variable {lead token : List Char} (led : Led delim lead token)
include led

theorem Led.not_delim (rest : List Char) : (token ++ rest).takeWhile (· = delim) = [] := by
  obtain ⟨first,later,rfl⟩ := List.exists_cons_of_ne_nil led.nonempty
  have other : first ≠ delim := fun same => led.free (same ▸ List.mem_cons_self)
  rw [List.cons_append,List.takeWhile_cons_of_neg (by simpa using other)]

theorem Led.span_lead (rest : List Char) : (lead ++ (token ++ rest)).takeWhile (· = delim) = lead := by
  rw [List.takeWhile_append_of_pos (by simpa using led.delims),led.not_delim,List.append_nil]

theorem Led.skip_lead (rest : List Char) : (lead ++ (token ++ rest)).dropWhile (· = delim) = token ++ rest := by
  rw [List.dropWhile_append_of_pos (by simpa using led.delims)]
  obtain ⟨first,later,rfl⟩ := List.exists_cons_of_ne_nil led.nonempty
  have other : first ≠ delim := fun same => led.free (same ▸ List.mem_cons_self)
  rw [List.cons_append,List.dropWhile_cons_of_neg (by simpa using other)]

theorem Led.others : ∀ char ∈ token, decide (char ≠ delim) = true := fun _ inside =>
  decide_eq_true fun same => led.free (same ▸ inside)

theorem Led.span_token (rest : List Char) : (token ++ delim :: rest).takeWhile (· ≠ delim) = token := by
  rw [List.takeWhile_append_of_pos led.others,List.takeWhile_cons_of_neg (by simp),List.append_nil]

theorem Led.skip_token (rest : List Char) : (token ++ delim :: rest).dropWhile (· ≠ delim) = delim :: rest := by
  rw [List.dropWhile_append_of_pos led.others,List.dropWhile_cons_of_neg (by simp)]

theorem Led.nextToken_cut (rest : List Char) : nextToken delim (lead ++ (token ++ delim :: rest)) = some (token,rest) := by
  have present : token ++ delim :: rest ≠ [] := by simp
  rw [nextToken,led.skip_lead,if_neg present,led.span_token,led.skip_token,List.tail_cons]

theorem Led.nextToken_last : nextToken delim (lead ++ token) = some (token,[]) := by
  have body : (lead ++ token).dropWhile (· = delim) = token := by
    simpa using led.skip_lead []
  rw [nextToken,body,if_neg led.nonempty,List.takeWhile_eq_self_iff.mpr led.others,
    List.dropWhile_eq_nil_iff.mpr led.others,List.tail_nil]

end Scans

theorem nextToken_blank {text : List Char} (blank : ∀ char ∈ text, char = delim) : nextToken delim text = none := by
  have body : text.dropWhile (· = delim) = [] := List.dropWhile_eq_nil_iff.mpr (by simpa using blank)
  rw [nextToken,body,if_pos rfl]

theorem tokens_delim (delim : Char) (text : List Char) : tokens delim (delim :: text) = tokens delim text := by
  have cut : (delim :: text).splitOn delim = [] :: text.splitOn delim := by
    simpa using List.splitOn_append_cons_self_of_not_mem (List.not_mem_nil (a := delim)) text
  rw [tokens,cut]
  rfl

theorem tokens_lead {lead : List Char} (delims : ∀ char ∈ lead, char = delim) (text : List Char) :
    tokens delim (lead ++ text) = tokens delim text := by
  induction lead with
  | nil => rfl
  | cons first lead ih =>
    rw [List.cons_append,delims first List.mem_cons_self,tokens_delim]
    exact ih fun char inside => delims char (List.mem_cons_of_mem _ inside)

theorem tokens_part {token : List Char} (nonempty : token ≠ []) (free : delim ∉ token) (rest : List Char) :
    tokens delim (token ++ delim :: rest) = token :: tokens delim rest := by
  rw [tokens,List.splitOn_append_cons_self_of_not_mem free,List.filter_cons_of_pos (by simpa using nonempty),tokens]

theorem tokens_single {token : List Char} (nonempty : token ≠ []) (free : delim ∉ token) : tokens delim token = [token] := by
  rw [tokens,List.splitOn_eq_singleton free,List.filter_cons_of_pos (by simpa using nonempty),List.filter_nil]

/-- The tokens are found one by one. -/
theorem tokens_next (delim : Char) (text : List Char) : tokens delim text = match nextToken delim text with
    | none => []
    | some (token,rest) => token :: tokens delim rest := by
  rcases text_cases delim text with blank | ⟨lead,token,led,rfl | ⟨rest,rfl⟩⟩
  · rw [nextToken_blank blank]
    have all := tokens_lead blank []
    rwa [List.append_nil] at all
  · rw [led.nextToken_last,tokens_lead led.delims,tokens_single led.nonempty led.free]
    rfl
  · rw [led.nextToken_cut,tokens_lead led.delims,tokens_part led.nonempty led.free]

end Texts

/-- The text stands at the pointer, with its terminator. -/
def At (memory : List Char) (pointer : Nat) (text : List Char) : Prop :=
  nul ∉ text ∧ ∃ after, memory.drop pointer = text ++ nul :: after

section Memory
variable {memory : List Char} {pointer : Nat} {text : List Char}

theorem At.str_eq (held : At memory pointer text) : str memory pointer = text := by
  obtain ⟨plain,after,there⟩ := held
  have others : ∀ char ∈ text, decide (char ≠ nul) = true := fun char inside =>
    decide_eq_true fun same => plain (same ▸ inside)
  rw [str,there,List.takeWhile_append_of_pos others,List.takeWhile_cons_of_neg (by simp),List.append_nil]

theorem At.later {lead : List Char} (held : At memory pointer (lead ++ text)) : At memory (pointer + lead.length) text := by
  obtain ⟨plain,after,there⟩ := held
  refine ⟨fun inside => plain (List.mem_append_right _ inside),after,?_⟩
  rw [← List.drop_drop,there,List.append_assoc,List.drop_left]

/-- What stands before a write or behind it is kept. -/
theorem At.kept (held : At memory pointer text) {index : Nat} (apart : index < pointer ∨ pointer + text.length < index) :
    At (memory.set index nul) pointer text := by
  obtain ⟨plain,after,there⟩ := held
  rcases apart with before | behind
  · exact ⟨plain,after,by rw [List.drop_set,if_pos before,there]⟩
  · have beyond : ¬index < pointer := by omega
    obtain ⟨more,distance⟩ : ∃ more, index - pointer = text.length + (more + 1) :=
      ⟨index - pointer - text.length - 1,by omega⟩
    refine ⟨plain,after.set more nul,?_⟩
    rw [List.drop_set,if_neg beyond,there,distance,List.set_append_right _ _ (Nat.le_add_right _ _),
      Nat.add_sub_cancel_left,List.set_cons_succ]

/-- A terminator in the place of a delimiter leaves the two parts. -/
theorem At.cut {token rest : List Char} {delim : Char} (held : At memory pointer (token ++ delim :: rest)) :
    At (memory.set (pointer + token.length) nul) pointer token ∧
      At (memory.set (pointer + token.length) nul) (pointer + token.length + 1) rest := by
  have behind : At memory (pointer + token.length + 1) rest := by
    have shifted : token ++ delim :: rest = (token ++ [delim]) ++ rest := by simp
    rw [shifted] at held
    have later := held.later
    rwa [List.length_append,List.length_singleton,← Nat.add_assoc] at later
  refine ⟨?_,behind.kept (.inl (Nat.lt_succ_self _))⟩
  obtain ⟨plain,after,there⟩ := held
  refine ⟨fun inside => plain (List.mem_append_left _ inside),rest ++ nul :: after,?_⟩
  have beyond : ¬pointer + token.length < pointer := by omega
  rw [List.drop_set,if_neg beyond,there,Nat.add_sub_cancel_left,List.append_assoc,
    List.set_append_right _ _ (Nat.le_refl _),Nat.sub_self,List.cons_append,List.set_cons_zero]

/-- What is left in memory of a text that `strtok_r` found a token in. -/
structure Taken (delim : Char) (memory : List Char) (s : Nat) (text token rest : List Char) (cut : Cut) (start : Nat) : Prop where
  found : cut.token = some start
  starts : start = s + (text.takeWhile (· = delim)).length
  tokenHeld : At cut.memory start token
  restHeld : At cut.memory cut.save rest
  before : start + token.length ≤ cut.save
  apart : rest = [] ∨ start + token.length < cut.save
  within : cut.save + rest.length ≤ s + text.length
  kept : ∀ pointer text', At memory pointer text' → s + text.length ≤ pointer ∨ pointer + text'.length < s →
    At cut.memory pointer text'

variable {delim : Char} {s : Nat}

theorem strtokR_none (held : At memory s text) (absent : nextToken delim text = none) :
    (strtokR delim memory s).token = none ∧ (strtokR delim memory s).memory = memory := by
  rcases text_cases delim text with blank | ⟨lead,token,led,rfl | ⟨rest,rfl⟩⟩
  · have span : text.takeWhile (· = delim) = text := List.takeWhile_eq_self_iff.mpr (by simpa using blank)
    have ended : str memory (s + text.length) = [] := by
      have behind : At memory s (text ++ []) := by rwa [List.append_nil]
      exact behind.later.str_eq
    rw [strtokR,held.str_eq,span,if_pos ended]
    exact ⟨rfl,rfl⟩
  · rw [led.nextToken_last] at absent
    cases absent
  · rw [led.nextToken_cut] at absent
    cases absent

theorem strtokR_some {token rest : List Char} (held : At memory s text) (taken : nextToken delim text = some (token,rest)) :
    ∃ start, Taken delim memory s text token rest (strtokR delim memory s) start := by
  rcases text_cases delim text with blank | ⟨lead,token',led,rfl | ⟨rest',rfl⟩⟩
  · rw [nextToken_blank blank] at taken
    cases taken
  · rw [led.nextToken_last] at taken
    cases taken
    have span : (lead ++ token).takeWhile (· = delim) = lead := by simpa using led.span_lead []
    have here := held.later
    have ended : At memory (s + lead.length + token.length) [] := by
      have behind : At memory (s + lead.length) (token ++ []) := by rwa [List.append_nil]
      exact behind.later
    have cut : strtokR delim memory s = ⟨some (s + lead.length),s + lead.length + token.length,memory⟩ := by
      rw [strtokR,held.str_eq,span,here.str_eq,if_neg led.nonempty,List.takeWhile_eq_self_iff.mpr led.others,ended.str_eq,
        if_pos rfl]
    rw [cut]
    refine ⟨s + lead.length,rfl,by rw [span],here,ended,Nat.le_refl _,.inl rfl,?_,fun _ _ other _ => other⟩
    simp only [List.length_append,List.length_nil]
    omega
  · rw [led.nextToken_cut] at taken
    cases taken
    have here := held.later
    have present : token ++ delim :: rest ≠ [] := by simp
    have stopped : str memory (s + lead.length + token.length) ≠ [] := by
      rw [here.later.str_eq]
      exact List.cons_ne_nil _ _
    have cut : strtokR delim memory s = ⟨some (s + lead.length),s + lead.length + token.length + 1,
        memory.set (s + lead.length + token.length) nul⟩ := by
      rw [strtokR,held.str_eq,led.span_lead,here.str_eq,if_neg present,led.span_token,if_neg stopped]
    obtain ⟨tokenHeld,restHeld⟩ := here.cut
    rw [cut]
    refine ⟨s + lead.length,rfl,by rw [led.span_lead],tokenHeld,restHeld,Nat.le_succ _,.inr (Nat.lt_succ_self _),?_,
      fun pointer text' other apart => ?_⟩
    · simp only [List.length_append,List.length_cons]
      omega
    · refine other.kept ?_
      simp only [List.length_append,List.length_cons] at apart
      omega

end Memory

section Conversions

def isSpace (char : Char) : Bool := char = ' ' || (9 ≤ char.toNat && char.toNat ≤ 13)

def decimal (digits : List Char) : Nat := digits.foldl (fun value char => value * 10 + (char.toNat - 48)) 0

/-- `strtol` in base ten: white space, a sign and the digits up to the first other character. -/
def strtol (text : List Char) : Int :=
  let body := text.dropWhile isSpace
  let digits := if body.head? = some '-' ∨ body.head? = some '+' then body.tail else body
  let value : Int := decimal (digits.takeWhile Char.isDigit)
  if body.head? = some '-' then max (-value) (-2^63) else min value (2^63 - 1)

/-- `atoi`, which converts the `long` of `strtol`. -/
def atoi (text : List Char) : Int := (strtol text).bmod (2^32)

theorem isDigit_range {char : Char} (digit : char.isDigit = true) : 48 ≤ char.toNat ∧ char.toNat ≤ 57 := by
  simp only [Char.isDigit,Bool.and_eq_true,decide_eq_true_eq] at digit
  exact ⟨UInt32.le_iff_toNat_le.mp digit.1,UInt32.le_iff_toNat_le.mp digit.2⟩

theorem isDigit_ne {char other : Char} (digit : char.isDigit = true) (outside : other.isDigit = false) : char ≠ other := by
  rintro rfl
  rw [digit] at outside
  cases outside

theorem atoi_decimal {digits : List Char} (nonempty : digits ≠ []) (all : ∀ char ∈ digits, char.isDigit = true)
    (small : decimal digits < 2^31) : atoi digits = decimal digits := by
  obtain ⟨first,more,rfl⟩ := List.exists_cons_of_ne_nil nonempty
  have digit := all first List.mem_cons_self
  have range := isDigit_range digit
  have space : isSpace first = false := by
    have other : first ≠ ' ' := isDigit_ne digit (by decide)
    have above : ¬first.toNat ≤ 13 := by omega
    simp [isSpace,other,above]
  have minus : (first :: more).head? ≠ some '-' := fun same => isDigit_ne digit (by decide) (Option.some.inj same)
  have plus : (first :: more).head? ≠ some '+' := fun same => isDigit_ne digit (by decide) (Option.some.inj same)
  have body : (first :: more).dropWhile isSpace = first :: more := List.dropWhile_cons_of_neg (by simp [space])
  have value : strtol (first :: more) = decimal (first :: more) := by
    rw [strtol,body,if_neg (not_or.mpr ⟨minus,plus⟩),if_neg minus,List.takeWhile_eq_self_iff.mpr all]
    omega
  rw [atoi,value]
  exact Int.bmod_eq_of_le (by omega) (by omega)

end Conversions
end Foundation.CString
