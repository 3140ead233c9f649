import Mathlib.Data.Nat.ModEq
import I386.Proofs.Action
import I386.Proofs.Contracts

/-!
Contract: memory as the bytes that its indices hold.

Owns:
- the bytes of a word, and words that fit in a width;
- the index of an address, which is the address modulo the size, also where memory is larger than
  the address space;
- what each index holds after bytes were stored: the one stored there last, or what it held;
- reading and writing at valid widths as reading and storing bytes.

Main statement: consecutive addresses, no more than memory has bytes, have different indices, so
what is stored at them is read back.

Does not own: who reads and writes.
-/

namespace I386

/-! ## Words and their bytes -/

namespace LittleEndian

@[simp] theorem length_bytes (count : Nat) (word : UInt32) : (bytes count word).length = count := by
  induction count generalizing word with
  | zero => rfl
  | succ count inductionHypothesis => simp [bytes, inductionHypothesis]

theorem toNat_shiftRight_eight (word : UInt32) : (word >>> 8).toNat = word.toNat / 256 := by
  simp [UInt32.toNat_shiftRight, Nat.shiftRight_eq_div_pow]

theorem number_bytes (count : Nat) (word : UInt32) :
    number (bytes count word) = word.toNat % 256 ^ count := by
  induction count generalizing word with
  | zero => simp [bytes, number, Nat.mod_one]
  | succ count inductionHypothesis =>
      have low : word.toUInt8.toNat = word.toNat % 256 := by simp
      rw [bytes, number, inductionHypothesis, toNat_shiftRight_eight, low, Nat.pow_succ',
        Nat.mod_mul]

theorem ofBytes_bytes {count : Nat} (short : count ≤ 4) {word : UInt32}
    (fits : word.toNat < 256 ^ count) : ofBytes (bytes count word) = word := by
  rw [← UInt32.toNat_inj, toNat_ofBytes _ (by simpa using short), number_bytes,
    Nat.mod_eq_of_lt fits]

end LittleEndian

theorem ValidWidth.toNat_le {width : UInt8} (valid : ValidWidth width) : width.toNat ≤ 4 := by
  rcases valid with rfl | rfl | rfl <;> decide

theorem toNat_and_mask {mask : UInt32} (bits : Nat) (isMask : mask.toNat = 2 ^ bits - 1)
    (value : UInt32) : (value &&& mask).toNat = value.toNat % 2 ^ bits := by
  rw [UInt32.toNat_and, isMask, Nat.and_two_pow_sub_one_eq_mod]

/-- Masking at a width leaves alone what fits in it. -/
theorem exists_widthMask {width : UInt8} (valid : ValidWidth width) :
    ∃ mask, widthMask width = .ok mask ∧
      ∀ value : UInt32, value.toNat < 256 ^ width.toNat → value &&& mask = value := by
  have masked {mask value : UInt32} (bits : Nat) (isMask : mask.toNat = 2 ^ bits - 1)
      (fits : value.toNat < 2 ^ bits) : value &&& mask = value := by
    rw [← UInt32.toNat_inj, toNat_and_mask bits isMask, Nat.mod_eq_of_lt fits]
  rcases valid with rfl | rfl | rfl
  · exact ⟨0xFF, rfl, fun value fits => masked 8 rfl fits⟩
  · exact ⟨0xFFFF, rfl, fun value fits => masked 16 rfl fits⟩
  · exact ⟨0xFFFFFFFF, rfl, fun value fits => masked 32 rfl fits⟩

namespace Memory

/-! ## Indices -/

theorem exists_roundedSize (requested : Nat) :
    ∃ exponent, roundedSize requested = 2 ^ exponent := by
  unfold roundedSize
  split
  · exact ⟨0, rfl⟩
  · exact ⟨_, rfl⟩

theorem add_one_add (address : UInt32) (count : Nat) :
    address + 1 + UInt32.ofNat count = address + UInt32.ofNat (count + 1) := by
  rw [UInt32.ofNat_add, UInt32.add_comm (UInt32.ofNat count), ← UInt32.add_assoc]
  rfl

section Index

variable {memory : Memory} {exponent : Nat} (size : memory.size = 2 ^ exponent)

include size

theorem toNat_addressMask : memory.addressMask.toNat = 2 ^ min exponent 32 - 1 := by
  rw [addressMask, UInt32.toNat_ofNat', size]
  rcases Nat.le_total exponent 32 with small | large
  · have positive := Nat.two_pow_pos exponent
    have bound : 2 ^ exponent ≤ 2 ^ 32 := Nat.pow_le_pow_right (by decide) small
    rw [Nat.min_eq_left small]
    exact Nat.mod_eq_of_lt (by omega)
  · -- The mask is the last 32 bits of the size less one, which are all set.
    obtain ⟨more, rfl⟩ := Nat.exists_eq_add_of_le large
    have positive := Nat.two_pow_pos more
    rw [Nat.min_eq_right large, Nat.pow_add]
    omega

/-- Addresses count modulo the size, unless it is larger than the address space. -/
theorem index_add (address : UInt32) (count : Nat) :
    memory.index (address + UInt32.ofNat count) =
      (address.toNat + count) % 2 ^ min exponent 32 := by
  have divides : 2 ^ min exponent 32 ∣ 2 ^ 32 := Nat.pow_dvd_pow 2 (Nat.min_le_right _ _)
  rw [index, UInt32.toNat_and, toNat_addressMask size, Nat.and_two_pow_sub_one_eq_mod,
    UInt32.toNat_add, UInt32.toNat_ofNat', Nat.add_mod_mod, Nat.mod_mod_of_dvd _ divides]

theorem index_eq (address : UInt32) : memory.index address = address.toNat % memory.size := by
  have masked := index_add size address 0
  rw [show UInt32.ofNat 0 = 0 from rfl, UInt32.add_zero, Nat.add_zero] at masked
  rw [masked, size]
  rcases Nat.le_total exponent 32 with small | large
  · rw [Nat.min_eq_left small]
  · have bound : 2 ^ 32 ≤ 2 ^ exponent := Nat.pow_le_pow_right (by decide) large
    have inside : address.toNat < 2 ^ 32 := address.toNat_lt
    rw [Nat.min_eq_right large, Nat.mod_eq_of_lt inside, Nat.mod_eq_of_lt (by omega)]

/-- Two places in a run that is no longer than memory and the address space have different
indices. -/
theorem index_add_inj {address : UInt32} {one other : Nat} (oneInside : one < memory.size)
    (otherInside : other < memory.size) (oneShort : one < UInt32.size)
    (otherShort : other < UInt32.size)
    (same : memory.index (address + UInt32.ofNat one) =
      memory.index (address + UInt32.ofNat other)) : one = other := by
  rw [size] at oneInside otherInside
  have inside {count : Nat} (below : count < 2 ^ exponent) (short : count < UInt32.size) :
      count < 2 ^ min exponent 32 := by
    rcases Nat.le_total exponent 32 with small | large
    · rw [Nat.min_eq_left small]
      exact below
    · rw [Nat.min_eq_right large]
      exact short
  rw [index_add size, index_add size] at same
  exact (Nat.ModEq.add_left_cancel' _ same).eq_of_lt_of_lt (inside oneInside oneShort)
    (inside otherInside otherShort)

end Index

/-! ## Stored bytes -/

section Store

variable (memory : Memory)

@[simp] theorem index_storeByte (address other : UInt32) (byte : UInt8) :
    (memory.storeByte address byte).index other = memory.index other := rfl

theorem byteAt_storeByte (address : UInt32) (byte : UInt8) (index : Nat) :
    (memory.storeByte address byte).byteAt index =
      if memory.index address = index then byte else memory.byteAt index := by
  simp [byteAt, storeByte, Std.ExtTreeMap.getD_insert]

/-- An index that none of the addresses selects keeps what it holds. -/
theorem byteAt_storeBytes_of_apart {address : UInt32} {bytes : List UInt8} {index : Nat}
    (apart : ∀ place < bytes.length, memory.index (address + UInt32.ofNat place) ≠ index) :
    (memory.storeBytes address bytes).byteAt index = memory.byteAt index := by
  induction bytes generalizing memory address with
  | nil => rfl
  | cons byte rest inductionHypothesis =>
      have first := apart 0 (by simp)
      rw [show UInt32.ofNat 0 = 0 from rfl, UInt32.add_zero] at first
      rw [storeBytes, inductionHypothesis, byteAt_storeByte, if_neg first]
      intro place below
      rw [index_storeByte, add_one_add]
      exact apart (place + 1) (by simpa using below)

/-- The last byte that is stored at an index stays there. -/
theorem byteAt_storeBytes_of_last {address : UInt32} {bytes : List UInt8} {place : Nat}
    (below : place < bytes.length)
    (last : ∀ later < bytes.length, place < later →
      memory.index (address + UInt32.ofNat later) ≠ memory.index (address + UInt32.ofNat place)) :
    (memory.storeBytes address bytes).byteAt (memory.index (address + UInt32.ofNat place)) =
      bytes[place] := by
  induction bytes generalizing memory address place with
  | nil => simp at below
  | cons byte rest inductionHypothesis =>
      rw [storeBytes]
      cases place with
      | zero =>
          -- No later byte lands on the index of the first one.
          rw [byteAt_storeBytes_of_apart]
          · simp [byteAt_storeByte]
          · intro later inside
            rw [index_storeByte, add_one_add]
            exact last (later + 1) (by simpa using inside) (by omega)
      | succ place =>
          rw [← add_one_add]
          refine inductionHypothesis (memory.storeByte address byte) (by simpa using below) ?_
          intro later inside after
          rw [index_storeByte, index_storeByte, add_one_add, add_one_add]
          exact last (later + 1) (by simpa using inside) (by omega)

/-- What is stored at no more addresses than memory has bytes is there afterwards. -/
theorem readByte_storeBytes {exponent : Nat} (size : memory.size = 2 ^ exponent)
    {address : UInt32} {bytes : List UInt8} (fits : bytes.length ≤ memory.size)
    (short : bytes.length ≤ UInt32.size) {place : Nat} (below : place < bytes.length) :
    (memory.storeBytes address bytes).readByte (address + UInt32.ofNat place) = bytes[place] := by
  have same : (memory.storeBytes address bytes).index (address + UInt32.ofNat place) =
      memory.index (address + UInt32.ofNat place) := by
    simp only [index, addressMask, size_storeBytes]
  rw [readByte, same]
  apply byteAt_storeBytes_of_last _ below
  intro later inside after sameIndex
  have equal := index_add_inj size (by omega) (by omega) (by omega) (by omega) sameIndex
  omega

end Store

/-! ## Values -/

theorem readBytes_eq_iff (memory : Memory) {address : UInt32} {bytes : List UInt8} :
    memory.readBytes address bytes.length = bytes ↔
      ∀ (place : Nat) (below : place < bytes.length),
        memory.readByte (address + UInt32.ofNat place) = bytes[place] := by
  induction bytes generalizing address with
  | nil => simp [readBytes]
  | cons byte rest inductionHypothesis =>
      simp only [List.length_cons, readBytes, List.cons.injEq, inductionHypothesis, add_one_add]
      constructor
      · rintro ⟨first, others⟩ place below
        cases place with
        | zero => simpa using first
        | succ place => exact others place (by simpa using below)
      · intro all
        refine ⟨by simpa using all 0 (by simp), fun place below => ?_⟩
        exact all (place + 1) (by simpa using below)

/-- A value is read as the bytes at its addresses. -/
theorem read_of_readBytes (memory : Memory) {address : UInt32} {width : UInt8}
    (valid : ValidWidth width) {bytes : List UInt8} (length : bytes.length = width.toNat)
    (held : memory.readBytes address width.toNat = bytes) :
    memory.read address width = .ok (LittleEndian.ofBytes bytes) := by
  obtain ⟨mask, isMask, keeps⟩ := exists_widthMask valid
  have short : bytes.length ≤ 4 := length ▸ valid.toNat_le
  have fits : (LittleEndian.ofBytes bytes).toNat < 256 ^ width.toNat := by
    rw [LittleEndian.toNat_ofBytes bytes short, ← length]
    exact LittleEndian.number_lt bytes
  rw [read, isMask, held]
  exact congrArg Except.ok (keeps _ fits)

/-- A value that fits is written as its bytes. -/
theorem write_eq (memory : Memory) (address : UInt32) {width : UInt8} (valid : ValidWidth width)
    {value : UInt32} (fits : value.toNat < 256 ^ width.toNat) :
    memory.write address width value =
      .ok (memory.storeBytes address (LittleEndian.bytes width.toNat value)) := by
  obtain ⟨mask, isMask, keeps⟩ := exists_widthMask valid
  rw [write, isMask]
  exact congrArg (fun kept => Except.ok (memory.storeBytes address
    (LittleEndian.bytes width.toNat kept))) (keeps value fits)

/-- Bytes that were stored are read back, if memory has as many. -/
theorem read_storeBytes (memory : Memory) {exponent : Nat} (size : memory.size = 2 ^ exponent)
    {address : UInt32} {width : UInt8} (valid : ValidWidth width) {bytes : List UInt8}
    (length : bytes.length = width.toNat) (roomy : width.toNat ≤ memory.size) :
    (memory.storeBytes address bytes).read address width = .ok (LittleEndian.ofBytes bytes) := by
  have short : bytes.length ≤ UInt32.size :=
    Nat.le_trans (length ▸ valid.toNat_le) (by decide)
  have held : (memory.storeBytes address bytes).readBytes address bytes.length = bytes :=
    (readBytes_eq_iff _).mpr fun place below =>
      memory.readByte_storeBytes size (length ▸ roomy) short below
  rw [length] at held
  exact read_of_readBytes _ valid length held

/-- A value that fits is read back, if memory has as many bytes as it is wide. -/
theorem read_of_write (memory : Memory) {exponent : Nat} (size : memory.size = 2 ^ exponent)
    {address : UInt32} {width : UInt8} (valid : ValidWidth width) (roomy : 4 ≤ memory.size)
    {value : UInt32} (fits : value.toNat < 256 ^ width.toNat) {written : Memory}
    (isWritten : memory.write address width value = .ok written) :
    written.read address width = .ok value := by
  rw [memory.write_eq address valid fits] at isWritten
  cases isWritten
  have small := valid.toNat_le
  rw [memory.read_storeBytes size valid (LittleEndian.length_bytes _ value)
    (Nat.le_trans small roomy), LittleEndian.ofBytes_bytes small fits]

end Memory

end I386
