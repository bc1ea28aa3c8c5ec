import Lancet.NicRing
import Lancet.Foundation.Wrapping

/-! What one report of the kernel completes in the ring of a connection (timestamping.c), with
the byte counter and the counters of the ring in any of their turns. -/
namespace Lancet.TxCompletion
open Foundation Timestamping NicRing

/-- A ring, with its counters and byte offsets as they are without wrapping. -/
structure Pending (ring : PendingTxTimestamps) where
  base : Nat
  sizes : List Nat
  consumed : Nat
  tail : Nat
  total : sizes.sum < 2^31
  ordered : consumed ≤ tail
  room : tail + sizes.length ≤ consumed + maxPendingReqs
  consumed_word : ring.consumed = UInt32.ofNat consumed
  tail_word : ring.tail = UInt32.ofNat tail
  head_word : ring.head = UInt32.ofNat (tail + sizes.length)
  marks : ∀ index < sizes.length, (ring.read (tail + index)).optid = UInt32.ofNat (base + (sizes.take (index + 1)).sum)

namespace Pending

variable {ring : PendingTxTimestamps} (pending : Pending ring)

def head : Nat := pending.tail + pending.sizes.length

/-- The bytes sent up to the end of so many pending requests. -/
def ends (count : Nat) : Nat := pending.base + (pending.sizes.take count).sum

/-- How many pending requests end in the bytes that a report covers. -/
def covered (bytes : Nat) : Nat := Nat.count (fun index => pending.ends (index + 1) ≤ bytes) pending.sizes.length

theorem ends_zero : pending.ends 0 = pending.base := by
  rw [ends,List.take_zero,List.sum_nil,Nat.add_zero]

theorem ends_mono {first second : Nat} (ordered : first ≤ second) : pending.ends first ≤ pending.ends second := by
  have part : (pending.sizes.take first).Sublist (pending.sizes.take second) := (List.take_prefix_take_left ordered).sublist
  exact Nat.add_le_add_left (part.sum_le_sum (fun _ _ => Nat.zero_le _)) _

theorem ends_bounded (count : Nat) : pending.base ≤ pending.ends count ∧ pending.ends count < pending.base + 2^31 := by
  have part : (pending.sizes.take count).sum ≤ pending.sizes.sum :=
    (List.take_sublist count pending.sizes).sum_le_sum (fun _ _ => Nat.zero_le _)
  have total := pending.total
  rw [ends]
  omega

theorem lt_covered_iff (bytes index : Nat) :
    index < pending.covered bytes ↔ index < pending.sizes.length ∧ pending.ends (index + 1) ≤ bytes :=
  lt_count_iff (fun _ _ ordered within => (pending.ends_mono (Nat.succ_le_succ ordered)).trans within) index _

end Pending

theorem word_lt_iff (x y : Nat) : UInt32.ofNat x < UInt32.ofNat y ↔ x % 2^32 < y % 2^32 := UInt32.lt_iff_toNat_lt

theorem word_le_iff (x y : Nat) : UInt32.ofNat x ≤ UInt32.ofNat y ↔ x % 2^32 ≤ y % 2^32 := UInt32.le_iff_toNat_le

theorem word_eq_iff (x y : Nat) : UInt32.ofNat x = UInt32.ofNat y ↔ x % 2^32 = y % 2^32 := UInt32.toNat_inj.symm

theorem word_succ (x : Nat) : UInt32.ofNat x + 1 = UInt32.ofNat (x + 1) := (UInt32.ofNat_add x 1).symm

theorem read_congr (ring : PendingTxTimestamps) {first second : Nat} (same : first % maxPendingReqs = second % maxPendingReqs) :
    ring.read first = ring.read second := by
  have slots : slot first = slot second := Fin.ext same
  exact congrArg (fun place : Fin maxPendingReqs => ring.pending[place]) slots

/-- The ring has a power of two of slots, so a counter that wrapped finds the same one. -/
theorem read_word (ring : PendingTxTimestamps) (index : Nat) : ring.entry (UInt32.ofNat index) = ring.read index :=
  read_congr ring (Nat.mod_mod_of_dvd index (by decide : maxPendingReqs ∣ 2^32))

theorem write_word (ring : PendingTxTimestamps) (index : Nat) (info : TimestampInfo) :
    Overwrites maxPendingReqs ring.read (ring.write (UInt32.ofNat index) info).read index info := by
  intro other
  have same : (UInt32.ofNat index).toNat % maxPendingReqs = index % maxPendingReqs :=
    Nat.mod_mod_of_dvd index (by decide : maxPendingReqs ∣ 2^32)
  rw [ring.write_overwrites (UInt32.ofNat index) info other,same]

section Completion
variable {ring : PendingTxTimestamps} (pending : Pending ring) (time : Timespec)

/-- The first `count` pending requests have got a time and nothing else has changed. -/
structure Completed (count : Nat) (after : PendingTxTimestamps) (recorded : List Timespec) : Prop where
  tail : after.tail = UInt32.ofNat (pending.tail + count)
  stamped : ∀ index < count, (after.read (pending.tail + index)).time = time
  optids : ∀ index, (after.read index).optid = (ring.read index).optid
  kept : ∀ index, pending.consumed ≤ index → index < pending.tail → (after.read index).time = (ring.read index).time
  recorded : recorded = List.replicate count time

variable {pending time}

theorem completed_none : Completed pending time 0 ring [] :=
  ⟨pending.tail_word,fun _ below => absurd below (Nat.not_lt_zero _),fun _ => rfl,fun _ _ _ => rfl,rfl⟩

/-- A time written at the tail is in the slot of the next pending request and of no other that counts. -/
theorem Completed.smudge {count : Nat} {after : PendingTxTimestamps} {recorded : List Timespec}
    (completed : Completed pending time count after recorded) (waiting : count < pending.sizes.length) :
    Completed pending time count (after.write after.tail {after.entry after.tail with time := time}) recorded ∧
      ((after.write after.tail {after.entry after.tail with time := time}).read (pending.tail + count)).time = time := by
  have written := write_word after (pending.tail + count) {after.entry after.tail with time := time}
  rw [← completed.tail] at written
  have ordered := pending.ordered
  have room := pending.room
  have far : ∀ index, pending.consumed ≤ index → index < pending.tail + count →
      (after.write after.tail {after.entry after.tail with time := time}).read index = after.read index :=
    fun index above below => written.near (by omega : pending.consumed ≤ pending.tail + count) above (by omega) (by omega)
      (Nat.ne_of_lt below)
  refine ⟨⟨completed.tail,?_,?_,?_,completed.recorded⟩,?_⟩
  · intro index below
    rw [far _ (by omega) (by omega)]
    exact completed.stamped index below
  · intro index
    rw [written]
    split
    next same =>
      have read : after.entry after.tail = after.read index := by rw [completed.tail,read_word,read_congr after same]
      rw [read]
      exact completed.optids index
    next => exact completed.optids index
  · intro index above below
    rw [far index above (by omega)]
    exact completed.kept index above below
  · rw [written.self]

theorem Completed.stamp {count : Nat} {after : PendingTxTimestamps} {recorded : List Timespec}
    (completed : Completed pending time count after recorded) (waiting : count < pending.sizes.length) :
    Completed pending time (count + 1) (stampTail after time) (recorded ++ [time]) := by
  obtain ⟨smudged,last⟩ := completed.smudge waiting
  refine ⟨?_,?_,smudged.optids,smudged.kept,?_⟩
  · rw [stampTail_tail,completed.tail,word_succ,Nat.add_assoc]
  · intro index below
    rcases Nat.lt_succ_iff_lt_or_eq.mp below with earlier | rfl
    · exact smudged.stamped index earlier
    · exact last
  · rw [completed.recorded,List.replicate_succ']

/-- The test of the loop over the coalesced requests. -/
def Takes (pending : Pending ring) (bytes index : Nat) : Prop :=
  index < pending.sizes.length ∧ pending.ends (index + 1) % 2^32 ≤ bytes % 2^32 ∧ SameTurn (2^32) (pending.tail + index) pending.head

theorem Completed.waits_iff {count : Nat} {after : PendingTxTimestamps} {recorded : List Timespec}
    (completed : Completed pending time count after recorded) (head : after.head = ring.head) (inside : count ≤ pending.sizes.length) :
    after.tail < after.head ↔ count < pending.sizes.length ∧ SameTurn (2^32) (pending.tail + count) pending.head := by
  have room := pending.room
  have ordered := pending.ordered
  rw [completed.tail,head,pending.head_word,word_lt_iff]
  rcases Nat.eq_or_lt_of_le inside with rfl | waiting
  · exact iff_of_false (Nat.lt_irrefl _) (fun taken => Nat.lt_irrefl _ taken.1)
  · rw [mod_lt_mod_iff (by omega) (by unfold maxPendingReqs at room; omega)]
    exact (and_iff_right waiting).symm

theorem Completed.takes_iff {count : Nat} {after : PendingTxTimestamps} {recorded : List Timespec}
    (completed : Completed pending time count after recorded) (head : after.head = ring.head) (inside : count ≤ pending.sizes.length)
    (byte : Nat) : ((after.entry after.tail).optid ≤ UInt32.ofNat byte + 1 ∧ after.tail < after.head) ↔ Takes pending (byte + 1) count := by
  rw [completed.waits_iff head inside,Takes,and_left_comm]
  refine and_congr_right (fun waiting => and_congr_left (fun _ => ?_))
  rw [completed.tail,read_word,completed.optids,pending.marks count waiting,word_succ,word_le_iff]
  rfl

/-- The loop takes the pending requests one after the other and stops at the first that fails its test. -/
theorem completeCovered_completes (byte passes : Nat) {count : Nat} {after : PendingTxTimestamps} {recorded : List Timespec}
    (completed : Completed pending time count after recorded) (head : after.head = ring.head) (inside : count ≤ pending.sizes.length)
    (fuel : passes = after.head.toNat - after.tail.toNat) :
    ∃ reached, count ≤ reached ∧
      Completed pending time reached (completeCovered time (UInt32.ofNat byte) passes after recorded).1
        (completeCovered time (UInt32.ofNat byte) passes after recorded).2 ∧
      (∀ index, count ≤ index → index < reached → Takes pending (byte + 1) index) ∧ ¬Takes pending (byte + 1) reached := by
  induction passes generalizing count after recorded with
  | zero =>
    refine ⟨count,le_rfl,completed,fun index above below => absurd below (Nat.not_lt.mpr above),?_⟩
    intro taken
    have waits := UInt32.lt_iff_toNat_lt.mp ((completed.takes_iff head inside byte).mpr taken).2
    omega
  | succ passes ih =>
    rw [completeCovered]
    split
    next guard =>
      have taken := (completed.takes_iff head inside byte).mp guard
      have waits := UInt32.lt_iff_toNat_lt.mp guard.2
      have bounded := after.head.toNat_lt
      have advanced : (after.tail + 1).toNat = after.tail.toNat + 1 := TcpHistory.toNat_succ (by omega)
      obtain ⟨reached,forward,completed',takes,stops⟩ := ih (completed.stamp taken.1) head taken.1
        (by rw [stampTail_tail,advanced]; exact (show passes = after.head.toNat - (after.tail.toNat + 1) by omega))
      refine ⟨reached,Nat.le_of_succ_le forward,completed',?_,stops⟩
      intro index above below
      rcases Nat.eq_or_lt_of_le above with rfl | later
      · exact taken
      · exact takes index later below
    next guard =>
      have stops : ¬Takes pending (byte + 1) count := fun taken => guard ((completed.takes_iff head inside byte).mpr taken)
      exact ⟨count,le_rfl,completed,fun index above below => absurd below (Nat.not_lt.mpr above),stops⟩

/-- How many requests the call completes. -/
def Reaches (pending : Pending ring) (bytes count : Nat) : Prop :=
  (bytes % 2^32 < pending.ends 1 % 2^32 ∧ count = 0) ∨ (pending.ends 1 % 2^32 = bytes % 2^32 ∧ count = 1) ∨
    (pending.ends 1 % 2^32 < bytes % 2^32 ∧ 1 ≤ count ∧ (∀ index, 1 ≤ index → index < count → Takes pending bytes index) ∧
      ¬Takes pending bytes count)

theorem Reaches.unique {bytes first second : Nat} (one : Reaches pending bytes first) (other : Reaches pending bytes second) :
    first = second := by
  rcases one with ⟨order,rfl⟩ | ⟨order,rfl⟩ | ⟨order,least,takes,stops⟩ <;>
    rcases other with ⟨order',rfl⟩ | ⟨order',rfl⟩ | ⟨order',least',takes',stops'⟩ <;> try omega
  rcases Nat.lt_trichotomy first second with less | same | more
  · exact absurd (takes' first least less) stops
  · exact same
  · exact absurd (takes second least' more) stops'

theorem getTxTimestamp_reaches (hardware : time.tvSec ≠ 0) (nonempty : pending.sizes ≠ []) (byte : Nat) (opid : UInt32) :
    ∃ after count, getTxTimestamp (some (message (time,UInt32.ofNat byte))) ring opid = .next after ∧
      Completed pending time count after.ring after.recorded ∧ Reaches pending (byte + 1) count := by
  have first : (ring.entry ring.tail).optid = UInt32.ofNat (pending.ends 1) := by
    rw [pending.tail_word,read_word]
    exact pending.marks 0 (List.length_pos_of_ne_nil nonempty)
  have waiting := List.length_pos_of_ne_nil nonempty
  have fresh : Completed pending time 0 ring [] := completed_none
  rcases Nat.lt_trichotomy (pending.ends 1 % 2^32) ((byte + 1) % 2^32) with below | same | above
  · have coalesced : (ring.entry ring.tail).optid < UInt32.ofNat byte + 1 := by
      rw [first,word_succ,word_lt_iff]
      exact below
    obtain ⟨reached,forward,completed,takes,stops⟩ := completeCovered_completes byte _ (fresh.stamp waiting) rfl waiting rfl
    exact ⟨_,reached,getTxTimestamp_coalesced hardware opid coalesced,completed,.inr (.inr ⟨below,forward,takes,stops⟩)⟩
  · have matching : (ring.entry ring.tail).optid = UInt32.ofNat byte + 1 := by
      rw [first,word_succ,word_eq_iff]
      exact same
    exact ⟨_,1,getTxTimestamp_exact hardware opid matching,fresh.stamp waiting,.inr (.inl ⟨same,rfl⟩)⟩
  · have early : UInt32.ofNat byte + 1 < (ring.entry ring.tail).optid := by
      rw [first,word_succ,word_lt_iff]
      exact above
    exact ⟨_,0,getTxTimestamp_early hardware opid early,(fresh.smudge waiting).1,.inl ⟨above,rfl⟩⟩

section Recognition
variable {bytes : Nat}

/-- No counter begins a new turn between two values that the call compares: the ends of the report and of a request,
or `tail` and `head`. -/
def Recognised (pending : Pending ring) (bytes : Nat) : Prop :=
  -- the report ends with the first request and with no other
  (pending.ends 1 = bytes ∧ pending.covered bytes = 1) ∨
  -- it ends inside the first request
  (bytes < pending.ends 1 ∧ SameTurn (2^32) bytes (pending.ends 1)) ∨
  -- it goes on behind the first request; the loop finds the others it covers and stops behind them
  (pending.ends 1 < bytes ∧ SameTurn (2^32) (pending.ends 1) bytes ∧
    (pending.covered bytes = 1 ∨ SameTurn (2^32) (pending.tail + 1) pending.head) ∧
    (pending.covered bytes = pending.sizes.length ∨ SameTurn (2^32) bytes (pending.ends (pending.covered bytes + 1)) ∨
      ¬SameTurn (2^32) (pending.tail + pending.covered bytes) pending.head))

/-- The report is about a byte of a pending request. -/
def Inside (pending : Pending ring) (bytes : Nat) : Prop := pending.base < bytes ∧ bytes ≤ pending.ends pending.sizes.length

theorem Inside.near (inside : Inside pending bytes) (count : Nat) :
    pending.ends count < bytes + 2^31 ∧ bytes < pending.ends count + 2^31 := by
  have ends := pending.ends_bounded count
  have all := pending.ends_bounded pending.sizes.length
  have above := inside.1
  have below := inside.2
  omega

theorem Inside.nonempty (inside : Inside pending bytes) : pending.sizes ≠ [] := by
  intro empty
  have above := inside.1
  have below := inside.2
  rw [empty,List.length_nil,pending.ends_zero] at below
  omega

theorem covered_le (bytes : Nat) : pending.covered bytes ≤ pending.sizes.length := Nat.count_le _

theorem covered_pos_iff (nonempty : pending.sizes ≠ []) : 0 < pending.covered bytes ↔ pending.ends 1 ≤ bytes := by
  rw [pending.lt_covered_iff]
  exact and_iff_right (List.length_pos_of_ne_nil nonempty)

theorem ends_covered (waiting : pending.covered bytes < pending.sizes.length) : bytes < pending.ends (pending.covered bytes + 1) := by
  by_contra covers
  have counted := (pending.lt_covered_iff bytes (pending.covered bytes)).mpr ⟨waiting,Nat.le_of_not_lt covers⟩
  exact Nat.lt_irrefl _ counted

/-- Of the requests that the report covers, the loop takes those from which `tail` is seen to be behind `head`. -/
theorem takes_covered {index : Nat} (turn : SameTurn (2^32) (pending.ends 1) bytes) (inside : index < pending.covered bytes) :
    Takes pending bytes index ↔ SameTurn (2^32) (pending.tail + index) pending.head := by
  obtain ⟨waiting,within⟩ := (pending.lt_covered_iff bytes index).mp inside
  have first : pending.ends 1 ≤ pending.ends (index + 1) := pending.ends_mono (Nat.succ_le_succ (Nat.zero_le _))
  have same : SameTurn (2^32) (pending.ends (index + 1)) bytes := (turn.between first within).symm.trans turn
  have covers : pending.ends (index + 1) % 2^32 ≤ bytes % 2^32 := by
    rcases Nat.eq_or_lt_of_le within with equal | less
    · rw [equal]
    · exact (mod_lt_mod same less).le
  exact ⟨fun taken => taken.2.2,fun seen => ⟨waiting,covers,seen⟩⟩

theorem not_takes_covered (inside : Inside pending bytes) : ¬Takes pending bytes (pending.covered bytes) ↔
    pending.covered bytes = pending.sizes.length ∨ SameTurn (2^32) bytes (pending.ends (pending.covered bytes + 1)) ∨
      ¬SameTurn (2^32) (pending.tail + pending.covered bytes) pending.head := by
  rw [Takes,not_and_or,not_and_or,Nat.not_lt]
  have bounded : pending.covered bytes ≤ pending.sizes.length := covered_le bytes
  rcases Nat.eq_or_lt_of_le bounded with all | waiting
  · exact iff_of_true (.inl all.ge) (.inl all)
  · have beyond := ends_covered waiting
    have near := (inside.near (pending.covered bytes + 1)).1
    have differs := mod_ne_mod beyond (by omega : _ < bytes + 2^32)
    rw [or_iff_right (Nat.not_le.mpr waiting),or_iff_right waiting.ne,Nat.not_le,mod_lt_mod_iff beyond (by omega)]

theorem takes_all_iff (turn : SameTurn (2^32) (pending.ends 1) bytes) (positive : 1 ≤ pending.covered bytes) :
    (∀ index, 1 ≤ index → index < pending.covered bytes → Takes pending bytes index) ↔
      pending.covered bytes = 1 ∨ SameTurn (2^32) (pending.tail + 1) pending.head := by
  have bounded : pending.covered bytes ≤ pending.sizes.length := covered_le bytes
  constructor
  · intro takes
    rcases Nat.eq_or_lt_of_le positive with one | more
    · exact .inl one.symm
    · exact .inr ((takes_covered turn more).mp (takes 1 le_rfl more))
  · rintro (one | same) index above below
    · omega
    · have behind : pending.tail + index ≤ pending.head := by
        rw [Pending.head]
        omega
      refine (takes_covered turn below).mpr ?_
      exact (same.between (Nat.add_le_add_left above _) behind).symm.trans same

theorem reaches_covered_iff (inside : Inside pending bytes) :
    Reaches pending bytes (pending.covered bytes) ↔ Recognised pending bytes := by
  have near := inside.near 1
  have counted := @covered_pos_iff _ pending bytes inside.nonempty
  rw [Reaches,Recognised]
  rcases Nat.lt_trichotomy (pending.ends 1) bytes with beyond | same | within
  · have counts := counted.mpr beyond.le
    have differs := mod_ne_mod beyond (by omega : bytes < pending.ends 1 + 2^32)
    have nonzero : ¬pending.covered bytes = 0 := Nat.ne_of_gt counts
    have more : 1 ≤ pending.covered bytes := counts
    rw [mod_lt_mod_iff beyond (by omega),not_takes_covered inside]
    simp only [nonzero,differs,beyond.ne,Nat.lt_asymm beyond,beyond,more,and_false,false_and,false_or,true_and]
    refine and_congr_right (fun turn => ?_)
    rw [takes_all_iff turn counts]
  · simp only [same,Nat.lt_irrefl,false_and,or_false,false_or,true_and]
  · have uncovered : pending.covered bytes = 0 := by
      by_contra counts
      have covers := counted.mp (Nat.pos_of_ne_zero counts)
      omega
    have empty : ¬1 ≤ 0 := Nat.not_succ_le_zero 0
    rw [mod_lt_mod_iff within (by omega),uncovered]
    simp only [within.ne',Nat.lt_asymm within,within,empty,and_true,and_false,false_and,or_false,false_or,true_and,zero_ne_one]

theorem completes_iff_reaches (hardware : time.tvSec ≠ 0) (nonempty : pending.sizes ≠ []) (byte : Nat) (opid : UInt32) (count : Nat) :
    (∃ after, getTxTimestamp (some (message (time,UInt32.ofNat byte))) ring opid = .next after ∧
      Completed pending time count after.ring after.recorded) ↔ Reaches pending (byte + 1) count := by
  obtain ⟨after,reached,returned,completed,reaches⟩ := @getTxTimestamp_reaches _ pending time hardware nonempty byte opid
  constructor
  · rintro ⟨after',returned',completed'⟩
    cases returned.symm.trans returned'
    have lengths := congrArg List.length (completed.recorded.symm.trans completed'.recorded)
    rw [List.length_replicate,List.length_replicate] at lengths
    exact lengths ▸ reaches
  · intro reaches'
    rw [reaches'.unique reaches]
    exact ⟨after,returned,completed⟩

/-- The call completes the pending requests that the report covers just when no counter turns in between. -/
theorem covered_prefix_iff {ring : PendingTxTimestamps} (pending : Pending ring) (opid : UInt32) (time : Timespec)
    (hardware : time.tvSec ≠ 0) (byte : Nat) (low : pending.base ≤ byte) (high : byte < pending.base + pending.sizes.sum) :
    (∃ after, getTxTimestamp (some (message (time,UInt32.ofNat byte))) ring opid = .next after ∧
      Completed pending time (pending.covered (byte + 1)) after.ring after.recorded) ↔ Recognised pending (byte + 1) := by
  have inside : Inside pending (byte + 1) := by
    rw [Inside,Pending.ends,List.take_length]
    omega
  rw [completes_iff_reaches hardware inside.nonempty byte opid,reaches_covered_iff inside]

end Recognition
end Completion

/-- A connection that has sent two requests of 100 bytes after its first `base` bytes. -/
def twoSends (base : Nat) : PendingTxTimestamps :=
  addPendingTxTimestamp (addPendingTxTimestamp {PendingTxTimestamps.empty with txByteCounter := UInt32.ofNat base} 100) 100

def twoPending (base : Nat) : Pending (twoSends base) where
  base := base
  sizes := [100,100]
  consumed := 0
  tail := 0
  total := by decide
  ordered := le_rfl
  room := by decide
  consumed_word := rfl
  tail_word := rfl
  head_word := rfl
  marks := by
    intro index below
    have first : UInt32.ofNat base + 100 = UInt32.ofNat (base + 100) := (UInt32.ofNat_add base 100).symm
    have second : UInt32.ofNat base + 100 + 100 = UInt32.ofNat (base + 200) := by
      rw [first]
      exact (UInt32.ofNat_add (base + 100) 100).symm
    match index,below with
    | 0,_ => exact first
    | 1,_ => exact second

/-- The second request ends behind the first 4 GiB, and the first one does too. -/
theorem covered_prefix_turned : ∃ after, getTxTimestamp (some (message (⟨7,0⟩,UInt32.ofNat 4294967445))) (twoSends 4294967246) 0 =
    .next after ∧ Completed (twoPending 4294967246) ⟨7,0⟩ 2 after.ring after.recorded :=
  (covered_prefix_iff (twoPending 4294967246) 0 ⟨7,0⟩ (by decide) 4294967445 (by decide) (by decide)).mpr
    (.inr (.inr (by decide)))

/-- Here the first request ends before the first 4 GiB do, and the report that covers both completes none. -/
theorem turn_between_fails : ¬∃ after, getTxTimestamp (some (message (⟨7,0⟩,UInt32.ofNat 4294967345))) (twoSends 4294967146) 0 =
    .next after ∧ Completed (twoPending 4294967146) ⟨7,0⟩ ((twoPending 4294967146).covered 4294967346) after.ring after.recorded := by
  rw [completes_iff_reaches (by decide) (List.cons_ne_nil _ _)]
  rintro (⟨-,zero⟩ | ⟨-,one⟩ | ⟨order,-⟩)
  · exact absurd zero (by decide)
  · exact absurd one (by decide)
  · exact absurd order (by decide)

end Lancet.TxCompletion
