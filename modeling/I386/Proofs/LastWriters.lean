import I386.Proofs.RegisterBytes

/-!
Contract: registers and memory after any sequence of writes.

Owns:
- the byte that was stored last at a place, and states that hold it there;
- writes of registers, the lanes that they cover, and register files that agree on all lanes;
- writes and images in memory, the indices that they cover, and what a run of bytes leaves at each
  of them.

Main statements:
- a register is read as the bytes that were last written to its lanes, whatever the numbers and
  widths of the writes were;
- an index of memory holds the byte that was last stored there, also where one call stores at it
  more than once.

Does not own: who writes.
-/

namespace I386

/-! ## The last to store -/

/-- What the last of some calls that store at a place leaves there. -/
def lastStored? {α : Type} (stored? : α → Nat → Option UInt8) (calls : List α) (place : Nat) :
    Option UInt8 :=
  calls.reverse.findSome? (stored? · place)

section Last

variable {α σ : Type} {stored? : α → Nat → Option UInt8}

theorem lastStored?_cons (call : α) (later : List α) (place : Nat) :
    lastStored? stored? (call :: later) place =
      (lastStored? stored? later place).or (stored? call place) := by
  have single : [call].findSome? (stored? · place) = stored? call place := by
    rw [List.findSome?_cons]
    cases stored? call place <;> rfl
  rw [lastStored?, List.reverse_cons, List.findSome?_append, single]
  rfl

/-- If each call leaves at every place what it stores there, or what was there, then calls in order
leave what was last stored. -/
theorem exists_foldlM_last {apply : σ → α → Except Violation σ} {byteAt : σ → Nat → UInt8}
    {sound : σ → Prop} {sized : α → Prop}
    (step : ∀ state call, sound state → sized call → ∃ after, apply state call = .ok after ∧
      sound after ∧ ∀ place, byteAt after place = (stored? call place).getD (byteAt state place))
    {calls : List α} (allSized : ∀ call ∈ calls, sized call) {state : σ} (isSound : sound state) :
    ∃ after, calls.foldlM apply state = .ok after ∧ sound after ∧
      ∀ place, byteAt after place =
        (lastStored? stored? calls place).getD (byteAt state place) := by
  induction calls generalizing state with
  | nil => exact ⟨state, rfl, isSound, fun place => rfl⟩
  | cons call later inductionHypothesis =>
      obtain ⟨first, others⟩ := List.forall_mem_cons.mp allSized
      obtain ⟨between, applied, stillSound, bytes⟩ := step state call isSound first
      obtain ⟨after, ran, lastSound, last⟩ := inductionHypothesis others stillSound
      refine ⟨after, ?_, lastSound, fun place => ?_⟩
      · rw [List.foldlM_cons, applied]
        exact ran
      · rw [last, bytes, lastStored?_cons]
        cases lastStored? stored? later place <;> rfl

end Last

/-! ## Masks and bytes -/

namespace LittleEndian

variable {width : UInt8} {mask : UInt32} (isMask : widthMask width = .ok mask)
  (valid : ValidWidth width) (value : UInt32)

include isMask valid

theorem toNat_masked : (value &&& mask).toNat = value.toNat % 256 ^ width.toNat := by
  rcases valid with rfl | rfl | rfl <;> cases isMask
  · exact toNat_and_mask 8 rfl value
  · exact toNat_and_mask 16 rfl value
  · exact toNat_and_mask 32 rfl value

/-- The bytes of a value at a width are the value under the mask of that width. -/
theorem ofBytes_bytes_masked : ofBytes (bytes width.toNat value) = value &&& mask := by
  rw [← UInt32.toNat_inj, toNat_ofBytes _ (by simpa using valid.toNat_le), number_bytes,
    toNat_masked isMask valid]

theorem bytes_masked : bytes width.toNat (value &&& mask) = bytes width.toNat value := by
  have full : ∀ place < width.toNat, byteOf mask place = 0xFF := by
    rcases valid with rfl | rfl | rfl <;> cases isMask <;> decide
  rw [bytes_eq_map, bytes_eq_map]
  refine List.map_congr_left fun place below => ?_
  rw [byteOf_and, full place (List.mem_range.mp below), and_all]

end LittleEndian

namespace Registers

/-! ## Writes of registers -/

/-- A lane is one of those that a register has at a width. -/
def Covers (number width : UInt8) (lane : Nat) : Prop :=
  firstLane number width ≤ lane ∧ lane < firstLane number width + width.toNat

instance (number width : UInt8) (lane : Nat) : Decidable (Covers number width lane) :=
  inferInstanceAs (Decidable (_ ∧ _))

structure Write where
  number : UInt8
  width : UInt8
  value : UInt32
deriving DecidableEq, Repr

namespace Write

def apply (write : Write) (registers : Registers) : Except Violation Registers :=
  registers.write write.number write.width write.value

/-- The byte of the value that a write puts on a lane, if it covers it. -/
def byteAt? (write : Write) (lane : Nat) : Option UInt8 :=
  if Covers write.number write.width lane then
    some (LittleEndian.byteOf write.value (lane - firstLane write.number write.width))
  else none

theorem byteAt?_of_not_covers {write : Write} {lane : Nat}
    (apart : ¬Covers write.number write.width lane) : write.byteAt? lane = none :=
  if_neg apart

theorem exists_apply {write : Write} (valid : ValidWidth write.width) (registers : Registers) :
    ∃ written, write.apply registers = .ok written ∧
      ∀ lane, written.byteAt lane = (write.byteAt? lane).getD (registers.byteAt lane) := by
  obtain ⟨written, isWritten, bytes⟩ :=
    exists_write valid registers write.number write.value
  refine ⟨written, isWritten, fun lane => (bytes lane).trans ?_⟩
  by_cases covers : Covers write.number write.width lane
  · rw [byteAt?, if_pos covers]
    exact if_pos covers
  · rw [byteAt?, if_neg covers]
    exact if_neg covers

end Write

/-- The registers after writes, in order. -/
def writeAll (registers : Registers) (writes : List Write) : Except Violation Registers :=
  writes.foldlM (fun registers write => write.apply registers) registers

theorem byteAt_zero (lane : Nat) : zero.byteAt lane = 0 := by
  have cells : zero.cells.toList.getD (lane / 4) 0 = 0 := by
    rw [List.getD_eq_getElem?_getD, show zero.cells.toList = List.replicate 8 0 from rfl,
      List.getElem?_replicate]
    split <;> rfl
  rw [byteAt, cells, LittleEndian.byteOf, UInt32.toNat_zero, Nat.zero_div]
  rfl

/-- Register files that agree on all lanes are the same. -/
theorem ext_byteAt {registers other : Registers}
    (same : ∀ lane, registers.byteAt lane = other.byteAt lane) : registers = other := by
  have cells (position : Fin 8) : registers.cell position = other.cell position := by
    have word (value : UInt32) : LittleEndian.ofBytes (LittleEndian.bytes 4 value) = value :=
      LittleEndian.ofBytes_bytes (by decide) value.toNat_lt
    rw [← word (registers.cell position), ← word (other.cell position),
      LittleEndian.bytes_eq_map, LittleEndian.bytes_eq_map]
    refine congrArg LittleEndian.ofBytes (List.map_congr_left fun place below => ?_)
    have inside := List.mem_range.mp below
    rw [← byteAt_cell _ _ inside, ← byteAt_cell _ _ inside, same]
  obtain ⟨own⟩ := registers
  obtain ⟨others⟩ := other
  exact congrArg mk (Vector.ext fun position inside => cells ⟨position, inside⟩)

section Applied

variable {write : Write} (valid : ValidWidth write.width) {registers written : Registers}
  (isWritten : write.apply registers = .ok written)

include valid isWritten

theorem byteAt_of_apply (lane : Nat) :
    written.byteAt lane = (write.byteAt? lane).getD (registers.byteAt lane) := by
  obtain ⟨found, isFound, bytes⟩ := Write.exists_apply valid registers
  cases isWritten.symm.trans isFound
  exact bytes lane

/-- After a write, a register is read as the bytes of the value on the lanes that it shares with the
write, and what was there on the others. -/
theorem read_of_apply {number width : UInt8} (isValid : ValidWidth width) :
    written.read number width = .ok (LittleEndian.ofBytes
      ((List.range width.toNat).map fun place =>
        (write.byteAt? (firstLane number width + place)).getD
          (registers.byteAt (firstLane number width + place)))) := by
  rw [read_eq_lanes isValid, lanes]
  simp only [byteAt_of_apply valid isWritten]

theorem read_of_apart {number width : UInt8} (isValid : ValidWidth width)
    (apart : ∀ lane, Covers write.number write.width lane → ¬Covers number width lane) :
    written.read number width = registers.read number width := by
  rw [read_of_apply valid isWritten isValid, read_eq_lanes isValid, lanes]
  refine congrArg (Except.ok ∘ LittleEndian.ofBytes) (List.map_congr_left fun place below => ?_)
  have covered : Covers number width (firstLane number width + place) :=
    ⟨Nat.le_add_right _ _, Nat.add_lt_add_left (List.mem_range.mp below) _⟩
  rw [Write.byteAt?_of_not_covers fun isCovered => apart _ isCovered covered]
  rfl

theorem read_own {mask : UInt32} (isMask : widthMask write.width = .ok mask) :
    written.read write.number write.width = .ok (write.value &&& mask) := by
  rw [read_of_apply valid isWritten valid, ← LittleEndian.ofBytes_bytes_masked isMask valid,
    LittleEndian.bytes_eq_map]
  refine congrArg (Except.ok ∘ LittleEndian.ofBytes) (List.map_congr_left fun place below => ?_)
  have covered : Covers write.number write.width (firstLane write.number write.width + place) :=
    ⟨Nat.le_add_right _ _, Nat.add_lt_add_left (List.mem_range.mp below) _⟩
  rw [Write.byteAt?, if_pos covered, Option.getD_some, Nat.add_sub_cancel_left]

theorem apply_comm {other : Write} (otherValid : ValidWidth other.width)
    (apart : ∀ lane, Covers write.number write.width lane →
      ¬Covers other.number other.width lane) :
    ∃ both, other.apply written = .ok both ∧
      (other.apply registers >>= write.apply) = .ok both := by
  obtain ⟨both, isBoth, bytes⟩ := Write.exists_apply otherValid written
  obtain ⟨late, isLate, lateBytes⟩ := Write.exists_apply otherValid registers
  obtain ⟨last, isLast, lastBytes⟩ := Write.exists_apply valid late
  have same : last = both := by
    refine ext_byteAt fun lane => ?_
    rw [lastBytes, lateBytes, bytes, byteAt_of_apply valid isWritten]
    by_cases covers : Covers write.number write.width lane
    · rw [Write.byteAt?_of_not_covers (apart lane covers)]
      rfl
    · rw [Write.byteAt?_of_not_covers covers]
      rfl
  refine ⟨both, isBoth, ?_⟩
  rw [isLate, ← same]
  exact isLast

end Applied

/-- At another width nothing is written. -/
theorem write_of_invalid {registers : Registers} {number width : UInt8} {value : UInt32}
    (invalid : ¬ValidWidth width) :
    registers.write number width value = .error (.registerWidth width) := by
  unfold ValidWidth at invalid
  simp only [not_or] at invalid
  simp [write, invalid]

/-- After any sequence of writes, a register is read as the bytes that were last written to its
lanes, and zero where none was. One write leaves the value under the mask of its width, it is seen
elsewhere on exactly the lanes that it covers, and it does not disturb, nor is disturbed by, what
covers none of these. At another width neither reading nor writing does anything. -/
theorem written_lanes :
    (∀ writes : List Write, (∀ write ∈ writes, ValidWidth write.width) →
      ∃ registers, zero.writeAll writes = .ok registers ∧
        ∀ number width, ValidWidth width → registers.read number width =
          .ok (LittleEndian.ofBytes ((List.range width.toNat).map fun place =>
            (lastStored? Write.byteAt? writes (firstLane number width + place)).getD 0))) ∧
    (∀ (registers : Registers) (write : Write), ValidWidth write.width →
      ∃ written, write.apply registers = .ok written ∧
        (∃ mask, widthMask write.width = .ok mask ∧
          written.read write.number write.width = .ok (write.value &&& mask)) ∧
        (∀ number width, ValidWidth width → written.read number width =
          .ok (LittleEndian.ofBytes ((List.range width.toNat).map fun place =>
            (write.byteAt? (firstLane number width + place)).getD
              (registers.byteAt (firstLane number width + place))))) ∧
        (∀ number width, ValidWidth width →
          (∀ lane, Covers write.number write.width lane → ¬Covers number width lane) →
            written.read number width = registers.read number width) ∧
        ∀ other : Write, ValidWidth other.width →
          (∀ lane, Covers write.number write.width lane →
            ¬Covers other.number other.width lane) →
              ∃ both, other.apply written = .ok both ∧
                (other.apply registers >>= write.apply) = .ok both) ∧
    ∀ (machine : Machine) (number width : UInt8) (value : UInt32), ¬ValidWidth width →
      machine.registers.read number width = .error (.registerWidth width) ∧
        machine.registers.write number width value = .error (.registerWidth width) ∧
        ∃ after, Machine.perform (.storeRegister number width value) machine =
            .error (.registerWidth width) after ∧ after.registers = machine.registers := by
  refine ⟨?_, ?_, ?_⟩
  · intro writes valid
    obtain ⟨registers, ran, -, bytes⟩ := exists_foldlM_last
      (fun registers write (_ : True) (isValid : ValidWidth write.width) =>
        (Write.exists_apply isValid registers).imp fun _ applied => ⟨applied.1, trivial, applied.2⟩)
      valid trivial
    refine ⟨registers, ran, fun number width isValid => ?_⟩
    rw [read_eq_lanes isValid, lanes]
    simp only [bytes, byteAt_zero]
  · intro registers write valid
    obtain ⟨written, isWritten, -⟩ := Write.exists_apply valid registers
    obtain ⟨mask, isMask, -⟩ := exists_widthMask valid
    exact ⟨written, isWritten, ⟨mask, isMask, read_own valid isWritten isMask⟩,
      fun number width isValid => read_of_apply valid isWritten isValid,
      fun number width isValid apart => read_of_apart valid isWritten isValid apart,
      fun other isValid apart => apply_comm valid isWritten isValid apart⟩
  · intro machine number width value invalid
    have refused : (machine.record (.storeRegister number width value)).registers.write number width
        value = .error (.registerWidth width) := write_of_invalid invalid
    refine ⟨read_of_invalid invalid, write_of_invalid invalid,
      machine.record (.storeRegister number width value), ?_, rfl⟩
    simp only [Machine.perform, Machine.execute, refused]
    rfl

/-- `eax`, then `ah` and `bx`; and `al` before and after `ah`. -/
theorem written_lanes_ah :
    let writes : List Write := [⟨0, 4, 0x12345678⟩, ⟨4, 1, 0xAB⟩, ⟨3, 2, 0xFFFFBEEF⟩]
    let ah : Write := ⟨4, 1, 0xAB⟩
    let al : Write := ⟨0, 1, 0x3CD⟩
    (∃ registers, zero.writeAll writes = .ok registers ∧
      registers.read 0 4 = .ok 0x1234AB78 ∧ registers.read 11 4 = .ok 0xBEEF) ∧
    (∃ written both, ah.apply zero = .ok written ∧ al.apply written = .ok both ∧
      (al.apply zero >>= ah.apply) = .ok both) ∧
    (Machine.ofMemorySize 16).registers.read 0 3 = .error (.registerWidth 3) := by
  intro writes ah al
  obtain ⟨history, one, refused⟩ := written_lanes
  have valid : ∀ write ∈ writes, ValidWidth write.width := by simp [writes, ValidWidth]
  have invalid : ¬ValidWidth 3 := by simp [ValidWidth]
  obtain ⟨registers, ran, held⟩ := history writes valid
  have apart : ∀ lane, Covers ah.number ah.width lane → ¬Covers al.number al.width lane := by
    have ahLane : firstLane ah.number ah.width = 1 := by decide
    have alLane : firstLane al.number al.width = 0 := by decide
    have widths : ah.width.toNat = 1 ∧ al.width.toNat = 1 := by decide
    unfold Covers
    omega
  obtain ⟨written, isWritten, -, -, -, commutes⟩ := one zero ah (.inl rfl)
  obtain ⟨both, isBoth, same⟩ := commutes al (.inl rfl) apart
  refine ⟨⟨registers, ran, (held 0 4 (.inr (.inr rfl))).trans ?_,
    (held 11 4 (.inr (.inr rfl))).trans ?_⟩, ⟨written, both, isWritten, isBoth, same⟩,
    (refused (.ofMemorySize 16) 0 3 0 invalid).1⟩
  · decide +kernel
  · decide +kernel

end Registers

namespace Memory

/-! ## Runs of bytes in memory -/

/-- The index that a place in a run of bytes lands on, in memory of a size: addresses wrap at the
end of the address space, and indices at the end of memory. -/
def landing (size : Nat) (address : UInt32) (place : Nat) : Nat :=
  (address.toNat + place) % UInt32.size % size

/-- The indices that a run of bytes lands on, in order. -/
def footprint (size : Nat) (address : UInt32) (count : Nat) : List Nat :=
  (List.range count).map (landing size address)

/-- The last place in a run of bytes that lands on an index. -/
def lastPlace? (size : Nat) (address : UInt32) (count index : Nat) : Option Nat :=
  (List.range count).reverse.find? fun place => landing size address place = index

/-- The byte that a run leaves at an index, which is the last of those that land there. -/
def runByteAt? (size : Nat) (address : UInt32) (bytes : List UInt8) (index : Nat) :
    Option UInt8 := do
  let place ← lastPlace? size address bytes.length index
  bytes[place]?

theorem landing_zero (size : Nat) (address : UInt32) :
    landing size address 0 = address.toNat % size :=
  congrArg (· % size) (Nat.mod_eq_of_lt address.toNat_lt)

theorem landing_succ (size : Nat) (address : UInt32) (place : Nat) :
    landing size address (place + 1) = landing size (address + 1) place := by
  have one : (1 : UInt32).toNat = 1 := rfl
  unfold landing
  rw [UInt32.toNat_add, one, Nat.mod_add_mod, Nat.add_assoc, Nat.add_comm 1 place]

theorem footprint_succ (size : Nat) (address : UInt32) (count : Nat) :
    footprint size address (count + 1) =
      address.toNat % size :: footprint size (address + 1) count := by
  unfold footprint
  rw [List.range_succ_eq_map, List.map_cons, List.map_map, landing_zero]
  exact congrArg (_ :: ·) (List.map_congr_left fun place _ => landing_succ size address place)

theorem lastPlace?_succ (size : Nat) (address : UInt32) (count index : Nat) :
    lastPlace? size address (count + 1) index =
      ((lastPlace? size (address + 1) count index).map (· + 1)).or
        (if address.toNat % size = index then some 0 else none) := by
  unfold lastPlace?
  rw [List.range_succ_eq_map, List.reverse_cons, List.find?_append, ← List.map_reverse,
    List.find?_map]
  simp only [Function.comp_def, landing_succ, Nat.succ_eq_add_one, List.find?_singleton,
    landing_zero, decide_eq_true_eq]

theorem lastPlace?_lt {size : Nat} {address : UInt32} {count index place : Nat}
    (found : lastPlace? size address count index = some place) : place < count :=
  List.mem_range.mp (List.mem_reverse.mp (List.mem_of_find?_eq_some found))

theorem lastPlace?_eq_none {size : Nat} {address : UInt32} {count index : Nat}
    (apart : index ∉ footprint size address count) :
    lastPlace? size address count index = none := by
  rw [lastPlace?, List.find?_eq_none]
  intro place isIn lands
  exact apart (List.mem_map.mpr ⟨place, List.mem_reverse.mp isIn, of_decide_eq_true lands⟩)

theorem runByteAt?_cons (size : Nat) (address : UInt32) (byte : UInt8) (rest : List UInt8)
    (index : Nat) :
    runByteAt? size address (byte :: rest) index =
      (runByteAt? size (address + 1) rest index).or
        (if address.toNat % size = index then some byte else none) := by
  unfold runByteAt?
  rw [List.length_cons, lastPlace?_succ]
  cases later : lastPlace? size (address + 1) rest.length index with
  | none =>
      by_cases here : address.toNat % size = index
      · simp [here]
      · simp [here]
  | some place =>
      have inside := lastPlace?_lt later
      simp [inside]

theorem runByteAt?_eq_none {size : Nat} {address : UInt32} {bytes : List UInt8} {index : Nat}
    (apart : index ∉ footprint size address bytes.length) :
    runByteAt? size address bytes index = none := by
  rw [runByteAt?, lastPlace?_eq_none apart]
  rfl

theorem initial_storeBytes (memory : Memory) (address : UInt32) (bytes : List UInt8) :
    (memory.storeBytes address bytes).initial = memory.initial := by
  induction bytes generalizing memory address with
  | nil => rfl
  | cons byte rest inductionHypothesis => exact inductionHypothesis _ _

theorem ext_stored {memory other : Memory} (size : memory.size = other.size)
    (initial : memory.initial = other.initial)
    (stored : ∀ index : Nat, memory.stored[index]? = other.stored[index]?) : memory = other := by
  obtain ⟨_, _, own⟩ := memory
  obtain ⟨_, _, others⟩ := other
  obtain rfl : own = others := Std.ExtTreeMap.ext_getElem? stored
  cases size
  cases initial
  rfl

/-- Storing the first of two runs and then the second is storing them as one. -/
theorem storeBytes_append (memory : Memory) (address : UInt32) (front back : List UInt8) :
    memory.storeBytes address (front ++ back) =
      (memory.storeBytes address front).storeBytes (address + UInt32.ofNat front.length) back := by
  induction front generalizing memory address with
  | nil => simp [storeBytes]
  | cons byte rest inductionHypothesis =>
      rw [List.cons_append, storeBytes, inductionHypothesis, storeBytes, add_one_add,
        List.length_cons]

section Sized

variable {memory : Memory} {exponent : Nat} (size : memory.size = 2 ^ exponent)

include size

theorem stored_storeBytes (address : UInt32) (bytes : List UInt8) (index : Nat) :
    (memory.storeBytes address bytes).stored[index]? =
      (runByteAt? memory.size address bytes index).or memory.stored[index]? := by
  induction bytes generalizing memory address with
  | nil => rfl
  | cons byte rest inductionHypothesis =>
      have stored : (memory.storeByte address byte).stored[index]? =
          (if address.toNat % memory.size = index then some byte else none).or
            memory.stored[index]? := by
        rw [storeByte, Std.ExtTreeMap.getElem?_insert, index_eq size]
        by_cases here : address.toNat % memory.size = index
        · simp [here]
        · simp [here]
      have still : (memory.storeByte address byte).size = 2 ^ exponent := size
      rw [storeBytes, inductionHypothesis still, stored, runByteAt?_cons, Option.or_assoc]
      rfl

theorem byteAt_storeBytes (address : UInt32) (bytes : List UInt8) (index : Nat) :
    (memory.storeBytes address bytes).byteAt index =
      (runByteAt? memory.size address bytes index).getD (memory.byteAt index) := by
  simp only [byteAt, Std.ExtTreeMap.getD_eq_getD_getElem?, stored_storeBytes size,
    initial_storeBytes]
  cases runByteAt? memory.size address bytes index <;> rfl

/-- Runs that share no index can be stored in either order. -/
theorem storeBytes_comm {address other : UInt32} {bytes others : List UInt8}
    (apart : (footprint memory.size address bytes.length).Disjoint
      (footprint memory.size other others.length)) :
    (memory.storeBytes address bytes).storeBytes other others =
      (memory.storeBytes other others).storeBytes address bytes := by
  have sizes (address : UInt32) (bytes : List UInt8) :
      (memory.storeBytes address bytes).size = 2 ^ exponent :=
    (size_storeBytes _ _ _).trans size
  apply ext_stored
  · simp only [size_storeBytes]
  · simp only [initial_storeBytes]
  · intro index
    rw [stored_storeBytes (sizes _ _), stored_storeBytes (sizes _ _), stored_storeBytes size,
      stored_storeBytes size, size_storeBytes, size_storeBytes]
    by_cases covers : index ∈ footprint memory.size address bytes.length
    · rw [runByteAt?_eq_none (apart covers)]
      rfl
    · rw [runByteAt?_eq_none covers]
      rfl

theorem readByte_of_apart {address other : UInt32} {bytes : List UInt8}
    (apart : other.toNat % memory.size ∉ footprint memory.size address bytes.length) :
    (memory.storeBytes address bytes).readByte other = memory.readByte other := by
  have still := (size_storeBytes memory address bytes).trans size
  rw [readByte, readByte, index_eq still, index_eq size, size_storeBytes, byteAt_storeBytes size,
    runByteAt?_eq_none apart]
  rfl

theorem readBytes_of_apart {address other : UInt32} {bytes : List UInt8} {count : Nat}
    (apart : (footprint memory.size address bytes.length).Disjoint
      (footprint memory.size other count)) :
    (memory.storeBytes address bytes).readBytes other count = memory.readBytes other count := by
  induction count generalizing other with
  | zero => rfl
  | succ count inductionHypothesis =>
      rw [footprint_succ] at apart
      have first : other.toNat % memory.size ∉ footprint memory.size address bytes.length :=
        fun covers => apart covers List.mem_cons_self
      have others : (footprint memory.size address bytes.length).Disjoint
          (footprint memory.size (other + 1) count) :=
        fun _ covers later => apart covers (List.mem_cons_of_mem _ later)
      rw [readBytes, readBytes, readByte_of_apart size first, inductionHypothesis others]

/-- What is read at indices that a run does not cover stays the same. -/
theorem read_of_apart {address other : UInt32} {bytes : List UInt8} {width : UInt8}
    (apart : (footprint memory.size address bytes.length).Disjoint
      (footprint memory.size other width.toNat)) :
    (memory.storeBytes address bytes).read other width = memory.read other width := by
  unfold read
  rw [readBytes_of_apart size apart]

end Sized

/-- Writing a value is storing its bytes, whether or not it fits. -/
theorem write_eq_storeBytes (memory : Memory) (address : UInt32) {width : UInt8}
    (valid : ValidWidth width) (value : UInt32) :
    memory.write address width value =
      .ok (memory.storeBytes address (LittleEndian.bytes width.toNat value)) := by
  obtain ⟨mask, isMask, -⟩ := exists_widthMask valid
  rw [← LittleEndian.bytes_masked isMask valid, write, isMask]
  rfl

/-! ## Calls -/

/-- A call that stores in memory: writing a value, or loading an image. -/
inductive Call where
  | write (address : UInt32) (width : UInt8) (value : UInt32)
  | load (address : UInt32) (image : List UInt8)
deriving DecidableEq, Repr

namespace Call

def address : Call → UInt32
  | write address _ _ => address
  | load address _ => address

/-- The bytes that a call stores, in order. -/
def bytes : Call → List UInt8
  | write _ width value => LittleEndian.bytes width.toNat value
  | load _ image => image

/-- A value is written at one, two or four bytes. -/
def Sized : Call → Prop
  | write _ width _ => ValidWidth width
  | load _ _ => True

def apply (memory : Memory) : Call → Except Violation Memory
  | write address width value => memory.write address width value
  | load address image => .ok (memory.storeBytes address image)

def byteAt? (size : Nat) (call : Call) (index : Nat) : Option UInt8 :=
  runByteAt? size call.address call.bytes index

def footprint (size : Nat) (call : Call) : List Nat :=
  Memory.footprint size call.address call.bytes.length

theorem apply_eq {call : Call} (sized : call.Sized) (memory : Memory) :
    call.apply memory = .ok (memory.storeBytes call.address call.bytes) := by
  cases call with
  | write address width value => exact memory.write_eq_storeBytes address sized value
  | load address image => rfl

end Call

/-- Memory after calls, in order. -/
def applyAll (memory : Memory) (calls : List Call) : Except Violation Memory :=
  calls.foldlM Call.apply memory

/-- After any sequence of calls on memory of any size, an index holds the byte that the last call to
store there stored there last, and zero where none did. Writing a value is loading the image of its
bytes, and images can be loaded in parts. A value is read back, cut to its width, unless it is wider
than memory. Calls that store at none of the same indices can be made in either order, and do not
change what is read elsewhere. -/
theorem stored_last (requested : Nat) :
    (∀ calls : List Call, (∀ call ∈ calls, call.Sized) →
      ∃ memory, (zero requested).applyAll calls = .ok memory ∧
        memory.size = roundedSize requested ∧
        ∀ index, memory.byteAt index =
          (lastStored? (Call.byteAt? memory.size) calls index).getD 0) ∧
    ∀ memory : Memory, memory.size = roundedSize requested →
      (∀ address width value, ValidWidth width →
        memory.write address width value =
          .ok (memory.storeBytes address (LittleEndian.bytes width.toNat value))) ∧
      (∀ address front back, memory.storeBytes address (front ++ back) =
        (memory.storeBytes address front).storeBytes (address + UInt32.ofNat front.length) back) ∧
      (∀ address width value, ValidWidth width → width.toNat ≤ memory.size →
        ∃ written held, memory.write address width value = .ok written ∧
          written.read address width = .ok held ∧
          held.toNat = value.toNat % 2 ^ (8 * width.toNat)) ∧
      ∀ call : Call, call.Sized → ∃ written, call.apply memory = .ok written ∧
        (∀ other : Call, other.Sized →
          (call.footprint memory.size).Disjoint (other.footprint memory.size) →
            ∃ both, other.apply written = .ok both ∧
              (other.apply memory >>= call.apply) = .ok both) ∧
        ∀ address width,
          (call.footprint memory.size).Disjoint (footprint memory.size address width.toNat) →
            written.read address width = memory.read address width := by
  obtain ⟨exponent, power⟩ := exists_roundedSize requested
  constructor
  · intro calls sized
    have step (memory : Memory) (call : Call) (isSized : memory.size = roundedSize requested)
        (valid : call.Sized) : ∃ after, call.apply memory = .ok after ∧
          after.size = roundedSize requested ∧
          ∀ index, after.byteAt index =
            (Call.byteAt? (roundedSize requested) call index).getD (memory.byteAt index) := by
      refine ⟨_, Call.apply_eq valid memory, (size_storeBytes _ _ _).trans isSized, ?_⟩
      rw [← isSized]
      exact byteAt_storeBytes (isSized.trans power) call.address call.bytes
    obtain ⟨memory, ran, isSized, bytes⟩ :=
      exists_foldlM_last step sized (rfl : (zero requested).size = roundedSize requested)
    refine ⟨memory, ran, isSized, ?_⟩
    rw [isSized]
    exact bytes
  · intro memory isSized
    have size := isSized.trans power
    refine ⟨?_, memory.storeBytes_append, ?_, ?_⟩
    · exact fun address width value valid => memory.write_eq_storeBytes address valid value
    · intro address width value valid roomy
      have length := LittleEndian.length_bytes width.toNat value
      refine ⟨_, _, memory.write_eq_storeBytes address valid value,
        memory.read_storeBytes size valid length roomy, ?_⟩
      rw [LittleEndian.toNat_ofBytes _ (Nat.le_trans (Nat.le_of_eq length) valid.toNat_le),
        LittleEndian.number_bytes,
        Nat.pow_mul]
    · intro call sized
      refine ⟨_, Call.apply_eq sized memory, ?_, ?_⟩
      · intro other otherSized apart
        refine ⟨_, Call.apply_eq otherSized _, ?_⟩
        rw [Call.apply_eq otherSized, storeBytes_comm size apart]
        exact Call.apply_eq sized _
      · exact fun address width apart => read_of_apart size apart

/-- An image of three bytes in memory of two, at the end of the address space, and then a byte. -/
theorem stored_last_wrapped :
    let calls : List Call := [.load 0xFFFFFFFF [0x11, 0x22, 0x33], .write 6 1 0x144]
    (∃ memory, (zero 2).applyAll calls = .ok memory ∧
      memory.byteAt 0 = 0x44 ∧ memory.byteAt 1 = 0x33) ∧
    ∃ written held, (zero 2).write 0xFFFFFFFF 2 0x12345 = .ok written ∧
      written.read 0xFFFFFFFF 2 = .ok held ∧ held.toNat = 0x2345 := by
  intro calls
  obtain ⟨history, one⟩ := stored_last 2
  have sized : ∀ call ∈ calls, call.Sized := by simp [calls, Call.Sized, ValidWidth]
  have size : (zero 2).size = roundedSize 2 := rfl
  obtain ⟨memory, ran, isSized, bytes⟩ := history calls sized
  obtain ⟨-, -, roundTrip, -⟩ := one (zero 2) size
  refine ⟨⟨memory, ran, ?_, ?_⟩, roundTrip 0xFFFFFFFF 2 0x12345 (.inr (.inl rfl)) (by decide)⟩
  · rw [bytes, isSized]
    decide +kernel
  · rw [bytes, isSized]
    decide +kernel

end Memory

end I386
