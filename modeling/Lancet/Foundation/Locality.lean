import Lancet.Foundation.CString
import Lancet.Foundation.Machine

/-! Strings of C are read and cut within a part of the memory that ends in a terminator: what is
done to such a block does not depend on what stands around it. -/
namespace Foundation.Locality
open CString

/-- The block ends in a terminator. -/
def Closed (block : List Char) : Prop := ∃ body, block = body ++ [nul]

theorem closed_text (text : List Char) : Closed (text ++ [nul]) := ⟨text,rfl⟩

theorem Closed.set {block : List Char} (closed : Closed block) (index : Nat) : Closed (block.set index nul) := by
  obtain ⟨body,rfl⟩ := closed
  by_cases inner : index < body.length
  · exact ⟨body.set index nul,List.set_append_left _ _ inner⟩
  · refine ⟨body,?_⟩
    rw [List.set_append_right _ _ (Nat.not_lt.mp inner)]
    cases index - body.length <;> rfl

/-- The scan stops where the block ends at the latest. -/
theorem takeWhile_stops {stop : Char} {accepts : Char → Bool} (rejected : accepts stop = false) (body post : List Char) :
    (body ++ stop :: post).takeWhile accepts = body.takeWhile accepts := by
  induction body with
  | nil => exact List.takeWhile_cons_of_neg (by simp [rejected])
  | cons first body ih =>
    rw [List.cons_append,List.takeWhile_cons,List.takeWhile_cons,ih]

section Strings
variable {pre post block : List Char} {index : Nat}

theorem Closed.drop (closed : Closed block) (inner : index < block.length) :
    ∃ body, block.drop index = body ++ [nul] ∧ index + body.length + 1 = block.length := by
  obtain ⟨body,rfl⟩ := closed
  rw [List.length_append,List.length_singleton] at inner
  refine ⟨body.drop index,List.drop_append_of_le_length (Nat.lt_succ_iff.mp inner),?_⟩
  rw [List.length_drop,List.length_append,List.length_singleton]
  omega

theorem drop_inside (pre post : List Char) (inner : index < block.length) :
    (pre ++ (block ++ post)).drop (pre.length + index) = block.drop index ++ post := by
  rw [← List.drop_drop,List.drop_left,List.drop_append_of_le_length (Nat.le_of_lt inner)]

theorem str_inside (pre post : List Char) (closed : Closed block) (inner : index < block.length) :
    str (pre ++ (block ++ post)) (pre.length + index) = str block index := by
  obtain ⟨body,rest,-⟩ := closed.drop inner
  have stops : decide (nul ≠ nul) = false := decide_eq_false (not_not_intro rfl)
  rw [str,str,drop_inside pre post inner,rest,List.append_assoc,List.singleton_append,takeWhile_stops stops,takeWhile_stops stops]

theorem str_length (closed : Closed block) (inner : index < block.length) : index + (str block index).length < block.length := by
  obtain ⟨body,rest,length⟩ := closed.drop inner
  have stops : decide (nul ≠ nul) = false := decide_eq_false (not_not_intro rfl)
  have short : (body.takeWhile (· ≠ nul)).length ≤ body.length := (List.takeWhile_sublist _).length_le
  rw [str,rest,takeWhile_stops stops]
  omega

theorem span_length (closed : Closed block) (inner : index < block.length) (accepts : Char → Bool) :
    index + ((str block index).takeWhile accepts).length < block.length := by
  have short : ((str block index).takeWhile accepts).length ≤ (str block index).length := (List.takeWhile_sublist _).length_le
  have inside := str_length closed inner
  omega

theorem set_inside (pre post : List Char) (inner : index < block.length) :
    (pre ++ (block ++ post)).set (pre.length + index) nul = pre ++ (block.set index nul ++ post) := by
  rw [List.set_append_right _ _ (Nat.le_add_right _ _),Nat.add_sub_cancel_left,List.set_append_left _ _ inner]

end Strings

/-- What was cut in a block, as it is in the memory. -/
def placed (pre post : List Char) (cut : Cut) : Cut := ⟨cut.token.map (pre.length + ·),pre.length + cut.save,pre ++ (cut.memory ++ post)⟩

/-- The pointers of a cut stay in the block. -/
structure Proper (size : Nat) (cut : Cut) : Prop where
  closed : Closed cut.memory
  length : cut.memory.length = size
  save : cut.save < size
  token : ∀ start ∈ cut.token, start < size

theorem strtokR_inside (delim : Char) (pre post : List Char) {block : List Char} {index : Nat} (closed : Closed block)
    (inner : index < block.length) :
    strtokR delim (pre ++ (block ++ post)) (pre.length + index) = placed pre post (strtokR delim block index) ∧
      Proper block.length (strtokR delim block index) := by
  have started := span_length closed inner (· = delim)
  have stopped := span_length closed started (· ≠ delim)
  have start : pre.length + index + ((str block index).takeWhile (· = delim)).length =
      pre.length + (index + ((str block index).takeWhile (· = delim)).length) := Nat.add_assoc _ _ _
  rw [strtokR,strtokR,str_inside pre post closed inner,start,str_inside pre post closed started]
  generalize index + ((str block index).takeWhile (· = delim)).length = first at started stopped
  have stop : pre.length + first + ((str block first).takeWhile (· ≠ delim)).length =
      pre.length + (first + ((str block first).takeWhile (· ≠ delim)).length) := Nat.add_assoc _ _ _
  rw [stop,str_inside pre post closed stopped]
  generalize first + ((str block first).takeWhile (· ≠ delim)).length = last at stopped
  have ends := str_length closed stopped
  split
  next => exact ⟨rfl,closed,rfl,started,fun _ listed => by cases listed⟩
  next =>
    split
    next =>
      refine ⟨rfl,closed,rfl,stopped,fun other token => ?_⟩
      cases token
      exact started
    next more =>
      have present := List.length_pos_iff.mpr more
      refine ⟨?_,closed.set last,List.length_set,?_,fun other token => ?_⟩
      · rw [set_inside pre post stopped]
        rfl
      · dsimp only
        omega
      · cases token
        exact started

section Functions
variable {α β : Type} {fits : List Char → Prop}

/-- The memory that a function leaves, put back to where the block was. -/
def putBack (pre post : List Char) (outcome : Outcome (α × List Char)) : Outcome (α × List Char) := do
  let (value,block) ← outcome
  return (value,pre ++ (block ++ post))

theorem putBack_next (pre post : List Char) (value : α) (block : List Char) :
    putBack pre post (.next (value,block)) = .next (value,pre ++ (block ++ post)) := rfl

/-- A function that works on a string at its pointer works in the block of the string alone. -/
structure LocalOn (fits : List Char → Prop) (program : List Char → Nat → Outcome (α × List Char)) : Prop where
  inside : ∀ (pre post : List Char) {block : List Char} {index : Nat}, Closed block → index < block.length → fits (str block index) →
    program (pre ++ (block ++ post)) (pre.length + index) = putBack pre post (program block index)
  keeps : ∀ {block block' : List Char} {index : Nat} {value : α}, Closed block → index < block.length → fits (str block index) →
    program block index = .next (value,block') → Closed block' ∧ block'.length = block.length

abbrev Local (program : List Char → Nat → Outcome (α × List Char)) : Prop := LocalOn (fun _ => True) program

theorem LocalOn.weaken {fits' : List Char → Prop} {program : List Char → Nat → Outcome (α × List Char)} (narrow : LocalOn fits program)
    (fewer : ∀ text, fits' text → fits text) : LocalOn fits' program where
  inside pre post _ _ closed inner fitting := narrow.inside pre post closed inner (fewer _ fitting)
  keeps closed inner fitting := narrow.keeps closed inner (fewer _ fitting)

theorem LocalOn.restrict {program : List Char → Nat → Outcome (α × List Char)} (everywhere : Local program) : LocalOn fits program :=
  everywhere.weaken fun _ _ => trivial

/-- Both ways of running it end alike. -/
theorem LocalOn.of_cases {program : List Char → Nat → Outcome (α × List Char)}
    (outcomes : ∀ (pre post : List Char) {block : List Char} {index : Nat}, Closed block → index < block.length → fits (str block index) →
      (∃ value block', program block index = .next (value,block') ∧
        program (pre ++ (block ++ post)) (pre.length + index) = .next (value,pre ++ (block' ++ post)) ∧
        Closed block' ∧ block'.length = block.length) ∨
      program block index = .fault ∧ program (pre ++ (block ++ post)) (pre.length + index) = .fault) : LocalOn fits program where
  inside pre post block index closed inner fitting := by
    rcases outcomes pre post closed inner fitting with ⟨value,block',alone,within,-⟩ | ⟨alone,within⟩
    · rw [within,alone]
      rfl
    · rw [within,alone]
      rfl
  keeps closed inner fitting same := by
    rcases outcomes [] [] closed inner fitting with ⟨value,block',alone,-,closed',length⟩ | ⟨alone,-⟩
    · cases alone.symm.trans same
      exact ⟨closed',length⟩
    · cases alone.symm.trans same

theorem local_fault : Local (fun _ _ => (.fault : Outcome (α × List Char))) where
  inside _ _ _ _ _ _ _ := rfl
  keeps _ _ _ same := by cases same

/-- What does not touch the memory. -/
theorem local_value (outcome : Outcome α) (convert : α → β) : Local (fun memory _ => do
    let value ← outcome
    return (convert value,memory)) where
  inside pre post block index _ _ _ := by cases outcome <;> rfl
  keeps closed _ _ same := by
    obtain ⟨value,-,returned⟩ := Outcome.bind_next same
    cases returned
    exact ⟨closed,rfl⟩

theorem LocalOn.bind {program : List Char → Nat → Outcome (α × List Char)} {following : α → List Char → Nat → Outcome (β × List Char)}
    (first : LocalOn fits program) (second : ∀ value, Local (following value)) : LocalOn fits (fun memory pointer => do
      let (value,memory) ← program memory pointer
      following value memory pointer) where
  inside pre post block index closed inner fitting := by
    rw [first.inside pre post closed inner fitting]
    rcases ran : program block index with ⟨value,block'⟩ | _ | _
    · obtain ⟨closed',length⟩ := first.keeps closed inner fitting ran
      exact (second value).inside pre post closed' (length ▸ inner) trivial
    · rfl
    · rfl
  keeps closed inner fitting same := by
    obtain ⟨⟨value,block'⟩,ran,same⟩ := Outcome.bind_next same
    obtain ⟨closed',length⟩ := first.keeps closed inner fitting ran
    obtain ⟨closed'',length'⟩ := (second value).keeps closed' (length ▸ inner) trivial same
    exact ⟨closed'',length'.trans length⟩

theorem LocalOn.convert {program : List Char → Nat → Outcome (α × List Char)} (reads : LocalOn fits program) (made : α → β) :
    LocalOn fits (fun memory pointer => do
      let (value,memory) ← program memory pointer
      return (made value,memory)) := reads.bind fun value => local_value (.next value) made

/-- A choice by the string at the pointer. -/
theorem local_choice (choose : List Char → Prop) [DecidablePred choose] {yes no : List Char → Nat → Outcome (α × List Char)}
    (chosen : LocalOn (fun text => fits text ∧ choose text) yes) (other : LocalOn fits no) :
    LocalOn fits (fun memory pointer => if choose (str memory pointer) then yes memory pointer else no memory pointer) where
  inside pre post block index closed inner fitting := by
    rw [str_inside pre post closed inner]
    split
    next given => exact chosen.inside pre post closed inner ⟨fitting,given⟩
    next => exact other.inside pre post closed inner fitting
  keeps closed inner fitting same := by
    split at same
    next given => exact chosen.keeps closed inner ⟨fitting,given⟩ same
    next => exact other.keeps closed inner fitting same

end Functions
end Foundation.Locality
