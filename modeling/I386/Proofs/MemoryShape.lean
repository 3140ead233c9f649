import Mathlib.Order.Bounds.Defs
import I386.Proofs.LastWriters

/-!
Contract: the size of memory, whatever is done with the machine.

Owns:
- the least power of two that has room for a request;
- memory of a requested size in which nothing was stored outside;
- everything that can change a machine, in any order and with any arguments, also where it breaks a
  contract or finds an error in a stream, and what all of it leaves as it is.

Main statement: memory has the least power of two of bytes that has room for the request, keeps
that size, and is read and changed only at addresses modulo the size, also if it is larger than the
address space.

Does not own: which bytes memory holds.
-/

namespace I386

namespace Memory

/-! ## Requested sizes -/

theorem le_roundedSize (requested : Nat) : max requested 1 ≤ roundedSize requested := by
  refine Nat.max_le.mpr ⟨?_, roundedSize_pos requested⟩
  unfold roundedSize
  by_cases small : requested ≤ 1
  · rw [if_pos small]
    exact small
  · have above : requested - 1 < 2 ^ ((requested - 1).log2 + 1) := Nat.lt_log2_self
    rw [if_neg small]
    exact Nat.le_of_pred_lt above

theorem roundedSize_le {requested size : Nat} (isPower : size.isPowerOfTwo)
    (roomy : max requested 1 ≤ size) : roundedSize requested ≤ size := by
  obtain ⟨exponent, rfl⟩ := isPower
  unfold roundedSize
  by_cases small : requested ≤ 1
  · rw [if_pos small]
    exact Nat.two_pow_pos exponent
  · rw [if_neg small]
    have below : 2 ^ (requested - 1).log2 ≤ requested - 1 := Nat.log2_self_le (by omega)
    have room : requested ≤ 2 ^ exponent := (Nat.max_le.mp roomy).1
    have smaller : 2 ^ (requested - 1).log2 < 2 ^ exponent := by omega
    exact Nat.pow_le_pow_right (by decide) ((Nat.pow_lt_pow_iff_right (by decide)).mp smaller)

/-- The size of memory is the least power of two that has room for the request and one byte. -/
theorem isLeast_roundedSize (requested : Nat) :
    IsLeast {size | size.isPowerOfTwo ∧ max requested 1 ≤ size} (roundedSize requested) :=
  ⟨⟨exists_roundedSize requested, le_roundedSize requested⟩,
    fun _ candidate => roundedSize_le candidate.1 candidate.2⟩

/-! ## Memory in shape -/

/-- Memory has the size of a request, and every index at which something was stored is in it. -/
structure InShape (requested : Nat) (memory : Memory) : Prop where
  size : memory.size = roundedSize requested
  inside : ∀ index ∈ memory.stored, index < memory.size

section InShape

variable {requested : Nat} {memory : Memory}

theorem inShape_zero (requested : Nat) : (zero requested).InShape requested where
  size := rfl
  inside := fun _ isIn => absurd isIn Std.ExtTreeMap.not_mem_empty

theorem InShape.index_eq (shape : memory.InShape requested) (address : UInt32) :
    memory.index address = address.toNat % memory.size := by
  obtain ⟨exponent, power⟩ := exists_roundedSize requested
  exact Memory.index_eq (shape.size.trans power) address

theorem InShape.storeByte (shape : memory.InShape requested) (address : UInt32) (byte : UInt8) :
    (memory.storeByte address byte).InShape requested where
  size := shape.size
  inside := by
    intro index isIn
    obtain same | before := Std.ExtTreeMap.mem_insert.mp isIn
    · rw [← compare_eq_iff_eq.mp same]
      exact index_lt shape.size address
    · exact shape.inside index before

theorem InShape.storeBytes (shape : memory.InShape requested) (address : UInt32)
    (bytes : List UInt8) : (memory.storeBytes address bytes).InShape requested := by
  induction bytes generalizing memory address with
  | nil => exact shape
  | cons byte rest inductionHypothesis =>
      exact inductionHypothesis (shape.storeByte address byte) (address + 1)

/-- What a write leaves is in shape, whatever its width. -/
theorem InShape.write (shape : memory.InShape requested) {address : UInt32} {width : UInt8}
    {value : UInt32} {written : Memory}
    (isWritten : memory.write address width value = .ok written) : written.InShape requested := by
  obtain ⟨mask, -, stored⟩ := except_bind_ok_iff.mp isWritten
  cases stored
  exact shape.storeBytes address _

/-- Reading takes the bytes at consecutive addresses, modulo the size. -/
theorem InShape.readBytes_eq (shape : memory.InShape requested) (address : UInt32) (count : Nat) :
    memory.readBytes address count =
      (footprint memory.size address count).map memory.byteAt := by
  induction count generalizing address with
  | zero => rfl
  | succ count inductionHypothesis =>
      rw [readBytes, footprint_succ, List.map_cons, inductionHypothesis, readByte,
        shape.index_eq]

theorem InShape.read_eq (shape : memory.InShape requested) (address : UInt32) {width : UInt8}
    (valid : ValidWidth width) :
    memory.read address width = .ok (LittleEndian.ofBytes
      ((footprint memory.size address width.toNat).map memory.byteAt)) := by
  have length : ((footprint memory.size address width.toNat).map memory.byteAt).length =
      width.toNat := by
    rw [List.length_map, footprint, List.length_map, List.length_range]
  exact read_of_readBytes memory valid length (shape.readBytes_eq address width.toNat)

theorem InShape.landing_lt (shape : memory.InShape requested) (address : UInt32) (place : Nat) :
    landing memory.size address place < memory.size := by
  have positive : 0 < memory.size := shape.size ▸ roundedSize_pos requested
  exact Nat.mod_lt _ positive

end InShape

end Memory

namespace Machine

/-! ## Operations -/

/-- What can change a machine. Transfers and writes may have any width, and decoding any stream and
any decoder. -/
inductive Operation where
  | writeRegister (number width : UInt8) (value : UInt32)
  | writeMemory (address : UInt32) (width : UInt8) (value : UInt32)
  | loadImage (address : UInt32) (image : List UInt8)
  | transfer (op : MicroOp)
  | setTrace (on : Bool)
  | takeTrace
  | decode (stream : Stream) (decoder : Decoder)
  /-- The steps need not be those of a pattern. -/
  | takeSteps (steps : List Step) (stream : Stream) (decoder : Decoder)
  | writeBack (operand : Operand) (value : UInt32) (stream : Stream) (decoder : Decoder)

/-- The machine after an operation, be it a success or a failure. -/
def after (machine : Machine) : Operation → Machine
  | .writeRegister number width value =>
      match machine.registers.write number width value with
      | .ok registers => { machine with registers }
      | .error _ => machine
  | .writeMemory address width value =>
      match machine.memory.write address width value with
      | .ok memory => { machine with memory }
      | .error _ => machine
  | .loadImage address image => machine.loadImage address image
  | .transfer op =>
      match perform op machine with
      | .ok _ after => after
      | .error _ after => after
  | .setTrace on => machine.setTrace on
  | .takeTrace => machine.takeTrace.2
  | .decode stream decoder => (Pass.left (Pass.decode ⟨stream, machine, decoder⟩)).machine
  | .takeSteps steps stream decoder =>
      (Pass.left (Step.runAll steps ⟨stream, machine, decoder⟩)).machine
  | .writeBack operand value stream decoder =>
      (Pass.left (operand.writeBack value ⟨stream, machine, decoder⟩)).machine

/-- The machine after operations, in order. -/
def afterAll (machine : Machine) (operations : List Operation) : Machine :=
  operations.foldl after machine

section Operation

variable {requested : Nat} {machine : Machine}

theorem inShape_execute {op : MicroOp} {value : UInt32} {executed : Machine}
    (shape : machine.memory.InShape requested)
    (ran : machine.execute op = .ok (value, executed)) : executed.memory.InShape requested := by
  cases op with
  | loadImmediate immediate =>
      cases ran
      exact shape
  | loadRegister number width =>
      obtain ⟨contents, -, same⟩ := except_bind_ok_iff.mp ran
      cases same
      exact shape
  | loadMemory address width =>
      obtain ⟨contents, -, same⟩ := except_bind_ok_iff.mp ran
      cases same
      exact shape
  | storeRegister number width stored =>
      obtain ⟨registers, -, same⟩ := except_bind_ok_iff.mp ran
      cases same
      exact shape
  | storeMemory address width stored =>
      obtain ⟨memory, written, same⟩ := except_bind_ok_iff.mp ran
      cases same
      exact shape.write written

theorem inShape_transfer (shape : machine.memory.InShape requested) (op : MicroOp) :
    (machine.after (.transfer op)).memory.InShape requested := by
  have recorded : (machine.record op).memory.InShape requested := shape
  simp only [after, perform]
  cases ran : (machine.record op).execute op with
  | ok outcome => exact inShape_execute recorded ran
  | error violation => exact recorded

/-- Decoding only adds to the record of a machine, also where it fails. -/
theorem inShape_left {α : Type} {action : PassM α} (isLocal : Pass.Local action) (pass : Pass)
    (shape : pass.machine.memory.InShape requested) :
    (Pass.left (action pass)).machine.memory.InShape requested := by
  obtain ⟨ops, recorded⟩ := (isLocal.reaches pass).recorded
  rw [recorded]
  exact shape

theorem machine_transfer (op : MicroOp) (pass : Pass) :
    (Pass.left (Pass.transfer op pass)).machine = pass.machine.after (.transfer op) := by
  simp only [Pass.transfer, after]
  cases perform op pass.machine <;> rfl

/-- No operation brings memory out of shape. -/
theorem inShape_after (shape : machine.memory.InShape requested) (operation : Operation) :
    (machine.after operation).memory.InShape requested := by
  cases operation with
  | writeRegister number width value =>
      simp only [after]
      cases machine.registers.write number width value with
      | ok registers => exact shape
      | error violation => exact shape
  | writeMemory address width value =>
      simp only [after]
      cases written : machine.memory.write address width value with
      | ok memory => exact shape.write written
      | error violation => exact shape
  | loadImage address image => exact shape.storeBytes address image
  | transfer op => exact inShape_transfer shape op
  | setTrace on => exact shape
  | takeTrace => exact shape
  | decode stream decoder => exact inShape_left Pass.local_decode _ shape
  | takeSteps steps stream decoder => exact inShape_left (Pass.local_runAll steps) _ shape
  | writeBack operand value stream decoder =>
      obtain kept | ⟨op, changed⟩ := operand.left_writeBack value ⟨stream, machine, decoder⟩
      · rw [after, kept]
        exact shape
      · rw [after, changed, machine_transfer]
        exact inShape_transfer shape op

theorem inShape_afterAll (shape : machine.memory.InShape requested)
    (operations : List Operation) : (machine.afterAll operations).memory.InShape requested := by
  induction operations generalizing machine with
  | nil => exact shape
  | cons operation later inductionHypothesis =>
      exact inductionHypothesis (inShape_after shape operation)

end Operation

/-- Memory of a requested size has the least power of two of bytes that has room for the request.
Whatever is done with the machine, the size stays, all that is stored is inside, and an address
selects its index modulo the size: reading takes the bytes that the addresses select so, and
writing a value or loading an image changes none but these. -/
theorem memory_keeps_shape (requested : Nat) :
    IsLeast {size | size.isPowerOfTwo ∧ max requested 1 ≤ size}
      (ofMemorySize requested).memory.size ∧
    ∀ operations : List Operation,
      let memory := ((ofMemorySize requested).afterAll operations).memory
      memory.size = (ofMemorySize requested).memory.size ∧
      (∀ index ∈ memory.stored, index < memory.size) ∧
      (∀ address, memory.index address = address.toNat % memory.size ∧
        memory.index address < memory.size) ∧
      (∀ address place, Memory.landing memory.size address place < memory.size) ∧
      (∀ address width, ValidWidth width →
        memory.read address width = .ok (LittleEndian.ofBytes
          ((Memory.footprint memory.size address width.toNat).map memory.byteAt))) ∧
      ∀ call : Memory.Call, call.Sized → ∃ changed, call.apply memory = .ok changed ∧
        changed.size = memory.size ∧
        ∀ index ∉ call.footprint memory.size, changed.byteAt index = memory.byteAt index := by
  refine ⟨Memory.isLeast_roundedSize requested, fun operations => ?_⟩
  have shape : ((ofMemorySize requested).afterAll operations).memory.InShape requested :=
    inShape_afterAll (Memory.inShape_zero requested) operations
  obtain ⟨exponent, power⟩ := Memory.exists_roundedSize requested
  refine ⟨shape.size, shape.inside, fun address => ⟨shape.index_eq address, ?_⟩,
    shape.landing_lt, fun address width valid => shape.read_eq address valid, ?_⟩
  · exact Memory.index_lt shape.size address
  · intro call sized
    refine ⟨_, Memory.Call.apply_eq sized _, Memory.size_storeBytes _ _ _, fun index apart => ?_⟩
    rw [Memory.byteAt_storeBytes (shape.size.trans power), Memory.runByteAt?_eq_none apart]
    rfl

/-- An image across the end of the address space in memory that is larger, then an instruction
that is cut off, and a transfer of no valid width. -/
theorem memory_keeps_shape_wide :
    let operations : List Operation :=
      [.loadImage 0xFFFFFFFF [0x11, 0x22],
        .decode (.mapped #[0x66, 0xA1, 0xFF] 0) (.ofSize .bits32),
        .transfer (.storeMemory 5 3 0)]
    let memory := ((ofMemorySize 0x100000001).afterAll operations).memory
    let call : Memory.Call := .write 0xFFFFFFFE 4 0
    (0xFFFFFFFF ∈ memory.stored ∧ ValidWidth 2 ∧ call.Sized ∧ 2 ∉ call.footprint memory.size) ∧
      memory.size = 0x200000000 ∧ 0xFFFFFFFF < memory.size ∧
      memory.read 0xFFFFFFFF 2 = .ok 0x2211 ∧
      ∃ changed, call.apply memory = .ok changed ∧ changed.byteAt 2 = memory.byteAt 2 := by
  intro operations memory call
  obtain ⟨-, kept⟩ := memory_keeps_shape 0x100000001
  obtain ⟨-, inside, -, -, reads, writes⟩ := kept operations
  have isSize : memory.size = 0x200000000 := by decide +kernel
  have stored : 0xFFFFFFFF ∈ memory.stored := by decide +kernel
  have valid : ValidWidth 2 := .inr (.inl rfl)
  have sized : call.Sized := .inr (.inr rfl)
  have apart : 2 ∉ call.footprint memory.size := by
    rw [isSize]
    decide +kernel
  obtain ⟨changed, ran, -, others⟩ := writes call sized
  refine ⟨⟨stored, valid, sized, apart⟩, isSize, inside _ stored,
    (reads 0xFFFFFFFF 2 valid).trans ?_, changed, ran, others 2 apart⟩
  decide +kernel

end Machine

end I386
