import Mathlib.Tactic.Ring

/-! Little-endian words and readers of byte lists. A reader consumes a prefix or fails
when there are not enough bytes. -/
namespace Foundation.Wire

def encode : Nat → Nat → List UInt8
  | 0, _ => []
  | width + 1, value => UInt8.ofNat value :: encode width (value / 256)

def decode : List UInt8 → Nat
  | [] => 0
  | byte :: bytes => byte.toNat + 256 * decode bytes

@[simp] theorem encode_length (width value : Nat) : (encode width value).length = width := by
  induction width generalizing value with
  | zero => rfl
  | succ width ih => rw [encode,List.length_cons,ih]

theorem decode_encode (width value : Nat) : decode (encode width value) = value % 256^width := by
  induction width generalizing value with
  | zero => rw [encode,decode,pow_zero,Nat.mod_one]
  | succ width ih =>
    have low : (UInt8.ofNat value).toNat = value % 256 := UInt8.toNat_ofNat'
    rw [encode,decode,ih,low,pow_succ,Nat.mul_comm (256^width) 256,Nat.mod_mul]

theorem decode_zeros (count : Nat) : decode (List.replicate count 0) = 0 := by
  induction count with
  | zero => rfl
  | succ count ih =>
    rw [List.replicate_succ,decode,ih]
    rfl

/-- A reader as Go's `binary.Read` on a byte reader. -/
def Reader (α : Type) := List UInt8 → Option (α × List UInt8)

namespace Reader

instance : Monad Reader where
  pure value := fun bytes => some (value,bytes)
  bind reader following := fun bytes => match reader bytes with
    | some (value,rest) => following value rest
    | none => none

theorem bind_run {α β : Type} {reader : Reader α} (following : α → Reader β) {bytes rest : List UInt8} {value : α}
    (read : reader bytes = some (value,rest)) : (reader >>= following) bytes = following value rest := by
  have unfolded : (reader >>= following) bytes = match reader bytes with
    | some (value,rest) => following value rest
    | none => none := rfl
  rw [unfolded,read]

theorem of_bind {α β : Type} {reader : Reader α} {following : α → Reader β} {bytes rest : List UInt8} {value : β}
    (read : (reader >>= following) bytes = some (value,rest)) :
    ∃ first middle, reader bytes = some (first,middle) ∧ following first middle = some (value,rest) := by
  have unfolded : (reader >>= following) bytes = match reader bytes with
    | some (value,rest) => following value rest
    | none => none := rfl
  rw [unfolded] at read
  split at read
  next first middle start => exact ⟨first,middle,start,read⟩
  next => cases read

end Reader

def word (width : Nat) : Reader Nat := fun bytes =>
  if width ≤ bytes.length then some (decode (bytes.take width),bytes.drop width) else none

def u32 : Reader UInt32 := fun bytes => (word 4 bytes).map (fun (value,rest) => (UInt32.ofNat value,rest))

def u64 : Reader UInt64 := fun bytes => (word 8 bytes).map (fun (value,rest) => (UInt64.ofNat value,rest))

def u32Bytes (value : UInt32) : List UInt8 := encode 4 value.toNat

def u64Bytes (value : UInt64) : List UInt8 := encode 8 value.toNat

@[simp] theorem u32Bytes_length (value : UInt32) : (u32Bytes value).length = 4 := encode_length 4 _

@[simp] theorem u64Bytes_length (value : UInt64) : (u64Bytes value).length = 8 := encode_length 8 _

theorem word_encode (width value : Nat) (rest : List UInt8) :
    word width (encode width value ++ rest) = some (value % 256^width,rest) := by
  have long : width ≤ (encode width value ++ rest).length := by
    rw [List.length_append,encode_length]
    exact Nat.le_add_right _ _
  have width_eq : width = (encode width value).length := (encode_length width value).symm
  rw [word,if_pos long]
  nth_rewrite 1 [width_eq]
  nth_rewrite 3 [width_eq]
  rw [List.take_left,List.drop_left,decode_encode]

theorem u32_encoded (value : UInt32) (rest : List UInt8) : u32 (u32Bytes value ++ rest) = some (value,rest) := by
  have small : value.toNat % 256^4 = value.toNat := Nat.mod_eq_of_lt value.toNat_lt
  rw [u32,u32Bytes,word_encode,small,Option.map_some]
  simp only [UInt32.ofNat_toNat]

theorem u64_encoded (value : UInt64) (rest : List UInt8) : u64 (u64Bytes value ++ rest) = some (value,rest) := by
  have small : value.toNat % 256^8 = value.toNat := Nat.mod_eq_of_lt value.toNat_lt
  rw [u64,u64Bytes,word_encode,small,Option.map_some]
  simp only [UInt64.ofNat_toNat]

/-- A reader that succeeds on every list of at least `width` bytes and takes that many. -/
def Takes {α : Type} (width : Nat) (reader : Reader α) : Prop :=
  ∀ bytes : List UInt8, width ≤ bytes.length → ∃ value, reader bytes = some (value,bytes.drop width)

theorem takes_pure {α : Type} (value : α) : Takes 0 (pure value : Reader α) :=
  fun _ _ => ⟨value,rfl⟩

theorem Takes.bind {α β : Type} {here later : Nat} {reader : Reader α} {following : α → Reader β} (taken : Takes here reader)
    (next : ∀ value, Takes later (following value)) : Takes (here + later) (reader >>= following) := by
  intro bytes long
  obtain ⟨value,read⟩ := taken bytes (Nat.le_trans (Nat.le_add_right _ _) long)
  have rest : later ≤ (bytes.drop here).length := by
    rw [List.length_drop]
    exact Nat.le_sub_of_add_le' long
  obtain ⟨value',read'⟩ := next value (bytes.drop here) rest
  exact ⟨value',by rw [Reader.bind_run _ read,read',List.drop_drop]⟩

theorem u32_long (bytes : List UInt8) (long : 4 ≤ bytes.length) :
    u32 bytes = some (UInt32.ofNat (decode (bytes.take 4)),bytes.drop 4) := by
  rw [u32,word,if_pos long,Option.map_some]

theorem u64_long (bytes : List UInt8) (long : 8 ≤ bytes.length) :
    u64 bytes = some (UInt64.ofNat (decode (bytes.take 8)),bytes.drop 8) := by
  rw [u64,word,if_pos long,Option.map_some]

theorem takes_u32 : Takes 4 u32 := fun bytes long => ⟨_,u32_long bytes long⟩

theorem takes_u64 : Takes 8 u64 := fun bytes long => ⟨_,u64_long bytes long⟩

end Foundation.Wire
