import Mathlib.Tactic.IntervalCases
import I386.Proofs.MemoryBytes

/-!
Contract: the register file as bytes.

Owns:
- the bytes of a word by their places, under masks and shifts;
- the 32 lanes of the register file, and the first lane of a register at a width;
- reading a register as the bytes of its lanes;
- what each lane holds after a register was written.

Main statement: writing a register changes its own lanes, to the bytes of the value, and no other
one, and reading it afterwards gives the value back.

Does not own: which registers instructions use.
-/

namespace I386

/-! ## Bytes of words -/

namespace LittleEndian

/-- The byte of a word at a place, counted from the least significant one. -/
def byteOf (word : UInt32) (place : Nat) : UInt8 :=
  UInt8.ofNat (word.toNat / 256 ^ place)

theorem testBit_byteOf (word : UInt32) (place bit : Nat) :
    (byteOf word place).toNat.testBit bit =
      (decide (bit < 8) && word.toNat.testBit (8 * place + bit)) := by
  rw [byteOf, UInt8.toNat_ofNat', show (256 : Nat) = 2 ^ 8 from rfl, ← Nat.pow_mul,
    Nat.testBit_mod_two_pow, Nat.testBit_div_two_pow, Nat.add_comm]

/-- Bytes are the same when their bits are. -/
theorem byte_ext {byte other : UInt8}
    (bits : ∀ bit, byte.toNat.testBit bit = other.toNat.testBit bit) : byte = other :=
  UInt8.toNat_inj.mp (Nat.eq_of_testBit_eq bits)

theorem byteOf_and (word other : UInt32) (place : Nat) :
    byteOf (word &&& other) place = byteOf word place &&& byteOf other place := by
  apply byte_ext
  intro bit
  simp only [testBit_byteOf, UInt32.toNat_and, UInt8.toNat_and, Nat.testBit_and]
  cases decide (bit < 8) <;> simp

theorem byteOf_or (word other : UInt32) (place : Nat) :
    byteOf (word ||| other) place = byteOf word place ||| byteOf other place := by
  apply byte_ext
  intro bit
  simp only [testBit_byteOf, UInt32.toNat_or, UInt8.toNat_or, Nat.testBit_or]
  cases decide (bit < 8) <;> simp

/-- A shift by eight bits moves every byte up one place. -/
theorem byteOf_shiftLeft (word : UInt32) {place : Nat} (inside : place < 4) :
    byteOf (word <<< 8) place = if place = 0 then 0 else byteOf word (place - 1) := by
  have shifted : (word <<< 8).toNat = word.toNat * 256 % 2 ^ 32 := by
    simp [UInt32.toNat_shiftLeft, Nat.shiftLeft_eq]
  rw [← UInt8.toNat_inj, byteOf, shifted]
  interval_cases place <;> simp [byteOf] <;> omega

theorem bytes_eq_map (count : Nat) (word : UInt32) :
    bytes count word = (List.range count).map (byteOf word) := by
  induction count generalizing word with
  | zero => rfl
  | succ count inductionHypothesis =>
      have next (place : Nat) : byteOf (word >>> 8) place = byteOf word (place + 1) := by
        rw [byteOf, byteOf, toNat_shiftRight_eight, Nat.div_div_eq_div_mul, Nat.pow_succ']
      have low : word.toUInt8 = byteOf word 0 := by simp [byteOf]
      rw [bytes, inductionHypothesis, List.range_succ_eq_map, List.map_cons, List.map_map, low]
      simp [Function.comp_def, next]

theorem byteOf_byteMask : ∀ place < 4, byteOf 0xFF place = if place = 0 then 0xFF else 0 := by
  decide

theorem and_all (byte : UInt8) : byte &&& 0xFF = byte :=
  UInt8.and_neg_one

/-- The number of consecutive bytes of a word. -/
theorem toNat_ofBytes_byteOf {start count : Nat} (inside : start + count ≤ 4) (word : UInt32) :
    (ofBytes ((List.range count).map fun place => byteOf word (start + place))).toNat =
      word.toNat / 256 ^ start % 256 ^ count := by
  have small : word.toNat / 256 ^ start < UInt32.size :=
    Nat.lt_of_le_of_lt (Nat.div_le_self _ _) word.toNat_lt
  have shifted : (UInt32.ofNat (word.toNat / 256 ^ start)).toNat = word.toNat / 256 ^ start :=
    UInt32.toNat_ofNat_of_lt' small
  have same (place : Nat) : byteOf word (start + place) =
      byteOf (UInt32.ofNat (word.toNat / 256 ^ start)) place := by
    rw [byteOf, byteOf, shifted, Nat.div_div_eq_div_mul, Nat.pow_add]
  simp only [same, ← bytes_eq_map]
  rw [toNat_ofBytes _ (by rw [length_bytes]; omega), number_bytes, shifted]

/-- Bytes that are cleared and then placed are replaced. -/
theorem byteOf_replaced {start count : Nat} {clear placed value : UInt32}
    (clears : ∀ place < 4, byteOf clear place =
      if start ≤ place ∧ place < start + count then 0 else 0xFF)
    (places : ∀ place < 4, byteOf placed place =
      if start ≤ place ∧ place < start + count then byteOf value (place - start) else 0)
    (held : UInt32) {place : Nat} (inside : place < 4) :
    byteOf ((held &&& clear) ||| placed) place =
      if start ≤ place ∧ place < start + count then byteOf value (place - start)
      else byteOf held place := by
  rw [byteOf_or, byteOf_and, clears place inside, places place inside]
  split <;> simp [and_all]

end LittleEndian

namespace Registers

/-! ## Lanes -/

/-- The byte of the register file at a lane: four lanes a cell, the lowest byte first. -/
def byteAt (registers : Registers) (lane : Nat) : UInt8 :=
  LittleEndian.byteOf (registers.cells.toList.getD (lane / 4) 0) (lane % 4)

/-- The first lane of a register at a width in bytes. -/
def firstLane (number width : UInt8) : Nat :=
  if width = 1 ∧ 4 ≤ number.toNat % 8 then 4 * (number.toNat % 8 - 4) + 1
  else 4 * (number.toNat % 8)

/-- The bytes of a register at a width, the lowest one first. -/
def lanes (registers : Registers) (number width : UInt8) : List UInt8 :=
  (List.range width.toNat).map fun place => registers.byteAt (firstLane number width + place)

theorem byteAt_cell (registers : Registers) (position : Fin 8) {place : Nat} (inside : place < 4) :
    registers.byteAt (4 * position.val + place) =
      LittleEndian.byteOf (registers.cell position) place := by
  have home : (4 * position.val + place) / 4 = position.val := by omega
  have lane : (4 * position.val + place) % 4 = place := by omega
  simp [byteAt, home, lane, cell]

theorem byteAt_modifyCell (registers : Registers) (position : Fin 8) (change : UInt32 → UInt32)
    (lane : Nat) :
    (registers.modifyCell position change).byteAt lane =
      if lane / 4 = position.val then
        LittleEndian.byteOf (change (registers.cell position)) (lane % 4)
      else registers.byteAt lane := by
  have length : registers.cells.toList.length = 8 := by simp
  unfold byteAt modifyCell
  rw [Vector.toList_set, List.getD_eq_getElem?_getD, List.getElem?_set]
  by_cases same : position.val = lane / 4
  · have inside : lane / 4 < 8 := same ▸ position.isLt
    simp [same, inside]
  · simp [same, Ne.symm same]

/-- The cell in which a register is at a width, from which byte on, and what reading and writing it
do to the bytes of that cell. -/
structure Home (number width : UInt8) (position : Fin 8) (start : Nat) : Prop where
  firstLane : firstLane number width = 4 * position.val + start
  inside : start + width.toNat ≤ 4
  read : ∀ registers : Registers, registers.read number width =
    .ok (LittleEndian.ofBytes ((List.range width.toNat).map fun place =>
      LittleEndian.byteOf (registers.cell position) (start + place)))
  write : ∀ (registers : Registers) (value : UInt32), ∃ change : UInt32 → UInt32,
    registers.write number width value = .ok (registers.modifyCell position change) ∧
      ∀ (held : UInt32) (place : Nat), place < 4 → LittleEndian.byteOf (change held) place =
        if start ≤ place ∧ place < start + width.toNat then
          LittleEndian.byteOf value (place - start)
        else LittleEndian.byteOf held place

section Home

open LittleEndian

theorem home_highByte {number : UInt8} (high : isHighByte number = true) :
    Home number 1 (byteCell number) 1 where
  firstLane := by
    have isHigh : 4 ≤ number.toNat % 8 := of_decide_eq_true high
    simp only [Registers.firstLane, byteCell, isHigh, and_self, if_true]
    omega
  inside := by decide
  read := by
    intro registers
    simp only [Registers.read, high, if_true, Except.ok.injEq]
    rw [← UInt32.toNat_inj, toNat_and_mask 8 rfl, toNat_ofBytes_byteOf (by decide),
      toNat_shiftRight_eight]
    rfl
  write := by
    intro registers value
    refine ⟨fun held => (held &&& 0xFFFF00FF) ||| ((value &&& 0xFF) <<< (8 : UInt32)), ?_, ?_⟩
    · simp [Registers.write, high]
    · refine byteOf_replaced (by decide) fun place inside => ?_
      rw [byteOf_shiftLeft _ inside, byteOf_and]
      interval_cases place <;> simp [byteOf_byteMask, and_all]

theorem home_lowByte {number : UInt8} (low : isHighByte number = false) :
    Home number 1 (byteCell number) 0 where
  firstLane := by
    have isLow : ¬4 ≤ number.toNat % 8 := of_decide_eq_false low
    simp only [Registers.firstLane, byteCell, isLow, and_false, if_false]
    omega
  inside := by decide
  read := by
    intro registers
    simp only [Registers.read, low, if_true, Bool.false_eq_true, if_false, Except.ok.injEq]
    rw [← UInt32.toNat_inj, toNat_and_mask 8 rfl, toNat_ofBytes_byteOf (by decide)]
    simp
  write := by
    intro registers value
    refine ⟨fun held => (held &&& 0xFFFFFF00) ||| (value &&& 0xFF), ?_, ?_⟩
    · simp [Registers.write, low]
    · refine byteOf_replaced (by decide) fun place inside => ?_
      rw [byteOf_and]
      interval_cases place <;> simp [byteOf_byteMask, and_all]

theorem firstLane_of_ne_one (number : UInt8) {width : UInt8} (wide : width ≠ 1) :
    firstLane number width = 4 * (Register.position number).val + 0 := by
  simp [firstLane, wide, Register.position]

theorem home_word (number : UInt8) : Home number 2 (Register.position number) 0 where
  firstLane := firstLane_of_ne_one number (by decide)
  inside := by decide
  read := by
    intro registers
    show Except.ok (registers.cell (Register.position number) &&& 0xFFFF) = _
    rw [Except.ok.injEq, ← UInt32.toNat_inj, toNat_and_mask 16 rfl,
      toNat_ofBytes_byteOf (by decide)]
    simp
  write := by
    intro registers value
    refine ⟨fun held => (held &&& 0xFFFF0000) ||| (value &&& 0xFFFF), ?_, ?_⟩
    · simp [Registers.write]
    · have mask : ∀ place < 4, byteOf 0xFFFF place = if place < 2 then 0xFF else 0 := by decide
      refine byteOf_replaced (by decide) fun place inside => ?_
      rw [byteOf_and]
      interval_cases place <;> simp [mask, and_all]

theorem home_dword (number : UInt8) : Home number 4 (Register.position number) 0 where
  firstLane := firstLane_of_ne_one number (by decide)
  inside := by decide
  read := by
    intro registers
    have inside := (registers.cell (Register.position number)).toNat_lt
    show Except.ok (registers.cell (Register.position number)) = _
    rw [Except.ok.injEq, ← UInt32.toNat_inj, toNat_ofBytes_byteOf (by decide)]
    simp only [Nat.pow_zero, Nat.div_one]
    exact (Nat.mod_eq_of_lt inside).symm
  write := by
    intro registers value
    refine ⟨fun _ => value, by simp [Registers.write], fun held place inside => ?_⟩
    simp [inside]

end Home

theorem exists_home {width : UInt8} (valid : ValidWidth width) (number : UInt8) :
    ∃ position start, Home number width position start := by
  rcases valid with rfl | rfl | rfl
  · cases byte : isHighByte number with
    | true => exact ⟨_, _, home_highByte byte⟩
    | false => exact ⟨_, _, home_lowByte byte⟩
  · exact ⟨_, _, home_word number⟩
  · exact ⟨_, _, home_dword number⟩

section Valid

variable {width : UInt8} (valid : ValidWidth width) (registers : Registers) (number : UInt8)

include valid

/-- A register is read as the bytes of its lanes. -/
theorem read_eq_lanes :
    registers.read number width = .ok (LittleEndian.ofBytes (registers.lanes number width)) := by
  obtain ⟨position, start, home⟩ := exists_home valid number
  have inside := home.inside
  rw [home.read]
  refine congrArg (fun bytes => Except.ok (LittleEndian.ofBytes bytes)) (List.map_congr_left ?_)
  intro place below
  rw [List.mem_range] at below
  rw [home.firstLane, Nat.add_assoc, byteAt_cell _ _ (by omega)]

/-- Writing a register puts the bytes of the value into its lanes and leaves the others alone. -/
theorem exists_write (value : UInt32) :
    ∃ written, registers.write number width value = .ok written ∧
      ∀ lane, written.byteAt lane =
        if firstLane number width ≤ lane ∧ lane < firstLane number width + width.toNat then
          LittleEndian.byteOf value (lane - firstLane number width)
        else registers.byteAt lane := by
  obtain ⟨position, start, home⟩ := exists_home valid number
  obtain ⟨change, isWritten, bytes⟩ := home.write registers value
  have inside := home.inside
  refine ⟨_, isWritten, fun lane => ?_⟩
  rw [byteAt_modifyCell, home.firstLane]
  by_cases here : lane / 4 = position.val
  -- Within the cell, the lanes of the register are the places that have changed.
  · have own := registers.byteAt_cell position (Nat.mod_lt lane (by decide : 0 < 4))
    rw [show 4 * position.val + lane % 4 = lane by omega] at own
    rw [if_pos here, bytes _ _ (Nat.mod_lt _ (by decide)), own]
    have same : start ≤ lane % 4 ∧ lane % 4 < start + width.toNat ↔
        4 * position.val + start ≤ lane ∧ lane < 4 * position.val + start + width.toNat := by
      omega
    have place : lane % 4 - start = lane - (4 * position.val + start) := by omega
    simp only [same, place]
  · rw [if_neg here, if_neg (by omega)]

/-- A value that fits is read back. -/
theorem read_of_write {value : UInt32} (fits : value.toNat < 256 ^ width.toNat)
    {written : Registers} (isWritten : registers.write number width value = .ok written) :
    written.read number width = .ok value := by
  obtain ⟨_, same, bytes⟩ := exists_write valid registers number value
  cases isWritten.symm.trans same
  have lanes : written.lanes number width = LittleEndian.bytes width.toNat value := by
    rw [LittleEndian.bytes_eq_map]
    refine List.map_congr_left fun place below => ?_
    rw [List.mem_range] at below
    rw [bytes, if_pos (by omega), Nat.add_sub_cancel_left]
  rw [read_eq_lanes valid, lanes, LittleEndian.ofBytes_bytes valid.toNat_le fits]

end Valid

end Registers

end I386
