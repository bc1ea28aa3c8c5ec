import Lancet.AppProto
import Lancet.Foundation.Printing
import Lancet.Foundation.Wire

/-! The requests of the application protocols (app_proto.c). The memcached protocol asks for
one key after the other, from a counter that each thread has of its own. -/
namespace Lancet.CreateRequest
open Foundation Wire Printing CString AppProto

/-- `struct ascii_mem_thread_data` without the buffer of the request. -/
structure ThreadArg where
  currentKey : UInt32
  deriving DecidableEq, Repr

def ThreadArg.fresh : ThreadArg := ⟨0⟩

def keyCount : Nat := 1000000

def echoCreateRequest (messageLen : Nat) : List UInt8 := List.replicate messageLen 35

/-- The bytes of the `long` that is drawn. -/
def syntheticCreateRequest (drawn : Int64) : List UInt8 := u64Bytes drawn.toUInt64

def asciiMemText (key : UInt32) : List Char :=
  "get ".toList ++ paddedDecimal 19 (key.toNat % keyCount) ++ "\r\n".toList

def asciiMemCreateRequest (arg : ThreadArg) : List UInt8 × ThreadArg :=
  (ascii (asciiMemText arg.currentKey),⟨arg.currentKey + 1⟩)

def asciiMemSvcCreateRequest (drawn : Int64) : List UInt8 :=
  ascii ("get ".toList ++ decimalInt drawn.toInt ++ "\r\n".toList)

/-- `create_request`: the bytes of the `iovec`s and what the thread keeps. `drawn` is what
`lround(generate(...))` returns where the protocol has a generator. -/
def createRequest (proto : ApplicationProtocol) (arg : ThreadArg) (drawn : Int64) : List UInt8 × ThreadArg :=
  match proto with
  | .echo messageLen => (echoCreateRequest messageLen,arg)
  | .synthetic => (syntheticCreateRequest drawn,arg)
  | .asciiMemcached => asciiMemCreateRequest arg
  | .asciiMemcachedSvc => (asciiMemSvcCreateRequest drawn,arg)

/-- The requests of a thread, one for each number drawn. -/
def createRequests (proto : ApplicationProtocol) (arg : ThreadArg) : List Int64 → List (List UInt8)
  | [] => []
  | drawn :: rest =>
    let (request,arg) := createRequest proto arg drawn
    request :: createRequests proto arg rest

/-- The key in a request: nineteen digits behind the command. -/
def requestedKey (request : List UInt8) : Option Nat :=
  let text := request.map (fun byte => Char.ofNat byte.toNat)
  if request.length = 25 ∧ text.take 4 = "get ".toList ∧ ((text.drop 4).take 19).all Char.isDigit = true ∧
      text.drop 23 = "\r\n".toList then
    some (decimal ((text.drop 4).take 19))
  else none

theorem ascii_text {text : List Char} (plain : ∀ char ∈ text, char.toNat < 128) :
    (ascii text).map (fun byte => Char.ofNat byte.toNat) = text := by
  rw [ascii,List.map_map]
  refine (List.map_congr_left fun char inside => ?_).trans text.map_id
  have small := plain char inside
  have byte : (UInt8.ofNat char.toNat).toNat = char.toNat := UInt8.toNat_ofNat_of_lt' (by unfold UInt8.size; omega)
  dsimp only [Function.comp]
  rw [byte,Char.ofNat_toNat]
  rfl

theorem digit_plain {char : Char} (digit : char.isDigit = true) : char.toNat < 128 := by
  have range := isDigit_range digit
  omega

theorem key_below (key : UInt32) : key.toNat % keyCount < 10^19 :=
  Nat.lt_trans (Nat.mod_lt _ (by decide)) (by decide)

theorem command_plain : "get ".toList.all (fun char => char.toNat < 128) = true := by decide

theorem ending_plain : "\r\n".toList.all (fun char => char.toNat < 128) = true := by decide

theorem asciiMemText_plain (key : UInt32) : ∀ char ∈ asciiMemText key, char.toNat < 128 := by
  intro char inside
  rw [asciiMemText,List.append_assoc] at inside
  rcases List.mem_append.mp inside with command | inside
  · exact of_decide_eq_true (List.all_eq_true.mp command_plain char command)
  · rcases List.mem_append.mp inside with digits | ending
    · exact digit_plain (padded_digits _ _ char digits)
    · exact of_decide_eq_true (List.all_eq_true.mp ending_plain char ending)

/-- A memcached request is read back as the key it asks for. -/
theorem requestedKey_created (key : UInt32) : requestedKey (ascii (asciiMemText key)) = some (key.toNat % keyCount) := by
  have digits := padded_length (by decide : 0 < 19) (key_below key)
  have long : (asciiMemText key).length = 25 := by
    rw [asciiMemText,List.length_append,List.length_append,digits]
    rfl
  have head : (asciiMemText key).take 4 = "get ".toList := by
    rw [asciiMemText,List.append_assoc]
    rfl
  have rest : (asciiMemText key).drop 4 = paddedDecimal 19 (key.toNat % keyCount) ++ "\r\n".toList := by
    rw [asciiMemText,List.append_assoc]
    rfl
  have middle : ((asciiMemText key).drop 4).take 19 = paddedDecimal 19 (key.toNat % keyCount) := by
    rw [rest,List.take_left' digits]
  have tail : (asciiMemText key).drop 23 = "\r\n".toList := by
    have behind : (asciiMemText key).drop (4 + 19) = "\r\n".toList := by rw [← List.drop_drop,rest,List.drop_left' digits]
    exact behind
  have all : (paddedDecimal 19 (key.toNat % keyCount)).all Char.isDigit = true := List.all_eq_true.mpr (padded_digits _ _)
  rw [requestedKey,ascii_text (asciiMemText_plain key),ascii_length,long,head,middle,tail,if_pos ⟨rfl,rfl,all,rfl⟩,decimal_padded]

theorem createRequests_asciiMem (key : UInt32) (drawn : List Int64) : createRequests .asciiMemcached ⟨key⟩ drawn =
    (List.range drawn.length).map (fun index => ascii (asciiMemText (key + UInt32.ofNat index))) := by
  induction drawn generalizing key with
  | nil => rfl
  | cons first drawn ih =>
    have shifted : ∀ index, key + 1 + UInt32.ofNat index = key + UInt32.ofNat (index + 1) := by
      intro index
      rw [UInt32.ofNat_add,UInt32.add_assoc,UInt32.add_comm 1]
      rfl
    have unfolded : createRequests .asciiMemcached ⟨key⟩ (first :: drawn) =
        ascii (asciiMemText key) :: createRequests .asciiMemcached ⟨key + 1⟩ drawn := rfl
    rw [unfolded,ih,List.length_cons,List.range_succ_eq_map,List.map_cons,List.map_map]
    congr 1
    · exact congrArg (fun key => ascii (asciiMemText key)) (UInt32.add_zero key).symm
    · exact List.map_congr_left fun index _ => congrArg (fun key => ascii (asciiMemText key)) (shifted index)

/-- The request of a thread with this index asks for this key. -/
def AsksFor (drawn : List Int64) (index key : Nat) : Prop :=
  ∃ request, (createRequests .asciiMemcached .fresh drawn)[index]? = some request ∧ requestedKey request = some key

theorem asksFor_iff {drawn : List Int64} {index : Nat} (inside : index < drawn.length) (key : Nat) :
    AsksFor drawn index key ↔ index % 2^32 % keyCount = key := by
  have request : (createRequests .asciiMemcached .fresh drawn)[index]? = some (ascii (asciiMemText (UInt32.ofNat index))) := by
    rw [ThreadArg.fresh,createRequests_asciiMem,List.getElem?_map,List.getElem?_range inside,Option.map_some,UInt32.zero_add]
  have word : (UInt32.ofNat index).toNat = index % 2^32 := UInt32.toNat_ofNat'
  constructor
  · rintro ⟨other,same,asked⟩
    rw [request] at same
    cases same
    rw [requestedKey_created,word] at asked
    exact Option.some.inj asked
  · rintro rfl
    exact ⟨_,request,by rw [requestedKey_created,word]⟩

/-- A thread's requests ask for every key once in each million in a row, exactly when the counter
does not wrap within them. -/
theorem keys_covered_iff (drawn : List Int64) (start : Nat) (inside : start + keyCount ≤ drawn.length) :
    (∀ key < keyCount, ∃! index, (start ≤ index ∧ index < start + keyCount) ∧ AsksFor drawn index key) ↔
      start % 2^32 + keyCount ≤ 2^32 := by
  unfold keyCount at inside
  have asks : ∀ index key, start ≤ index → index < start + 1000000 →
      (AsksFor drawn index key ↔ index % 2^32 % 1000000 = key) := by
    intro index key _ below
    exact asksFor_iff (by omega) key
  unfold keyCount
  constructor
  · intro covered
    by_contra wraps
    obtain ⟨left,whole⟩ : ∃ left, left = 2^32 - start % 2^32 := ⟨_,rfl⟩
    rcases Nat.lt_or_ge 967296 left with many | few
    · -- the first request after the wrap asks for key 0, and so did one before it
      obtain ⟨index,-,unique⟩ := covered 0 (by decide)
      have first := unique (start + left) ⟨by omega,(asks _ _ (by omega) (by omega)).mpr (by omega)⟩
      have second := unique (start + left - 967296) ⟨by omega,(asks _ _ (by omega) (by omega)).mpr (by omega)⟩
      omega
    · -- before the wrap the keys end at 967295, after it they do not get to the last one
      obtain ⟨index,⟨⟨low,high⟩,asked⟩,-⟩ := covered 999999 (by decide)
      have key := (asks index 999999 low high).mp asked
      rcases Nat.lt_or_ge index (start + left) with before | after
      · have word : index % 2^32 = 2^32 - left + (index - start) := by omega
        rw [word] at key
        omega
      · have word : index % 2^32 = index - start - left := by omega
        rw [word] at key
        omega
  · intro whole key below
    refine ⟨start + (key + (1000000 - start % 2^32 % 1000000)) % 1000000,?_,?_⟩
    · exact ⟨by omega,(asks _ _ (by omega) (by omega)).mpr (by omega)⟩
    · rintro index ⟨⟨low,high⟩,asked⟩
      have same := (asks index key low high).mp asked
      omega

/-- The first million of requests of a thread. -/
theorem keys_covered_first : ∃ drawn : List Int64, drawn.length = keyCount ∧ ∀ key < keyCount,
    ∃! index, (0 ≤ index ∧ index < 0 + keyCount) ∧ AsksFor drawn index key := by
  have long : (List.replicate keyCount (0 : Int64)).length = keyCount := List.length_replicate
  refine ⟨_,long,(keys_covered_iff _ 0 ?_).mpr (by decide)⟩
  rw [long,Nat.zero_add]

end Lancet.CreateRequest
