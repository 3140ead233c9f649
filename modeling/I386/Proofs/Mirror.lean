import I386.Proofs.MemoryBytes
import I386.Proofs.MemoryReads
import I386.Proofs.Sweep

/-!
Contract: the image in the stream and in memory.

Owns:
- passes whose memory holds the mapped bytes where they are mapped;
- fetching from their stream and reading from their memory;
- the value of an operand that was loaded from memory.

Main statement: from the beginning of a sweep to its end, the stream and the memory agree on every
value of the image, so an operand that is loaded from there has its own bytes as value.

Does not own: what is in memory around the image.
-/

namespace I386

namespace Stream

theorem base_add_offset (stream : Stream) (address : UInt32) :
    stream.base + UInt32.ofNat (stream.offset address) = address := by
  rw [offset, UInt32.ofNat_toNat, UInt32.add_comm, UInt32.sub_add_cancel]

theorem holds_seek {stream : Stream} {address : UInt32} {bytes : List UInt8} :
    (stream.seek address).Holds bytes ↔ stream.HoldsAt address bytes := by
  simp only [Holds, holdsAt_iff]
  rfl

/-- Where consecutive bytes are mapped, they are a run. -/
theorem exists_holdsAt {stream : Stream} {address : UInt32} {count : Nat}
    (isMapped : ∀ place < count, (stream.byteAt? (address + UInt32.ofNat place)).isSome = true) :
    ∃ bytes : List UInt8, bytes.length = count ∧ stream.HoldsAt address bytes := by
  refine ⟨(List.range count).map fun place =>
    (stream.byteAt? (address + UInt32.ofNat place)).getD 0, by simp, ?_⟩
  rw [holdsAt_iff]
  intro place below
  obtain ⟨byte, found⟩ := Option.isSome_iff_exists.mp (isMapped place (by simpa using below))
  simp [found]

end Stream

namespace Pass

/-- What is mapped is in memory at the same addresses. -/
def Mirrors (pass : Pass) : Prop :=
  ∀ (address : UInt32) (byte : UInt8), pass.stream.byteAt? address = some byte →
    pass.machine.memory.readByte address = byte

/-- What is mapped is read from memory as it is fetched. -/
theorem Mirrors.read_eq_fetch {pass : Pass} (mirrors : pass.Mirrors) {address : UInt32}
    {width : UInt8} (valid : ValidWidth width) {bytes : List UInt8}
    (length : bytes.length = width.toNat) (holds : pass.stream.HoldsAt address bytes) :
    pass.machine.memory.read address width = .ok (LittleEndian.ofBytes bytes) ∧
      Stream.fetch width (pass.stream.seek address) = .ok (LittleEndian.ofBytes bytes)
        (pass.stream.seek (address + UInt32.ofNat width.toNat)) := by
  constructor
  · apply Memory.read_of_readBytes _ valid length
    rw [← length, Memory.readBytes_eq_iff]
    intro place below
    exact mirrors _ _ (Stream.holdsAt_iff.mp holds place below)
  · exact Stream.fetch_ok_iff.mpr ⟨valid, bytes, length, Stream.holds_seek.mpr holds, rfl, rfl⟩

/-! ## Loaded operands -/

theorem value_of_loads {role : Role} {fields : OperandBytes} {registers : Registers}
    {memory : Memory} {opcode width dest : UInt8} (isLoaded : role.loads = true)
    (inMemory : (role.filled fields registers memory opcode width dest).kind = .memory) :
    (role.filled fields registers memory opcode width dest).value =
      memory.contents (role.filled fields registers memory opcode width dest).address
        (role.filled fields registers memory opcode width dest).width := by
  obtain ⟨addressing, immediate⟩ := fields
  cases role with
  | rm load =>
      obtain rfl : load = true := isLoaded
      cases addressing with
      | none => cases inMemory
      | some encoding =>
          simp only [Role.filled, Option.elim, Operand.withRm] at inMemory ⊢
          cases isMemory : encoding.modRm.isMemory with
          | false =>
              rw [isMemory] at inMemory
              cases inMemory
          | true => rfl
  | offset load =>
      obtain rfl : load = true := isLoaded
      rfl
  | _ => cases isLoaded

/-- If memory is read, it is for the operand that is in memory. -/
theorem loads_of_read {pass : Pass} {encoding : Encoding} {selection : Selection}
    (encodes : encoding.Encodes pass.decoder.defaultSize selection)
    (holds : pass.stream.Holds encoding.bytes) {slot : Slot}
    (inMemory : ((pass.instruction encoding selection).operand slot).kind = .memory)
    {op : MicroOp} (isIn : op ∈ pass.transfers) (isRead : op.readsMemory = true) :
    (selection.role slot).loads = true := by
  by_contra notLoaded
  have unread : Unread pass.transfers := by
    apply unread_of_encodes encodes holds
    intro other loads otherInMemory
    rw [eq_of_memory encodes inMemory otherInMemory] at loads
    exact notLoaded loads
  exact Bool.false_ne_true ((unread op isIn).symm.trans isRead)

/-- An operand that was loaded from memory has the value that is read there. -/
theorem read_of_loaded {pass after : Pass} {instruction : Instruction}
    (ran : decode pass = .ok instruction after) {slot : Slot}
    (inMemory : (instruction.operand slot).kind = .memory)
    (loaded : .loadMemory (instruction.operand slot).address (instruction.operand slot).width ∈
      pass.transfers) :
    pass.machine.memory.read (instruction.operand slot).address (instruction.operand slot).width =
      .ok (instruction.operand slot).value := by
  obtain ⟨encoding, selection, ⟨encodes, holds⟩, rfl, -⟩ := decode_ok_iff.mp ran
  have valid : ValidWidth ((pass.instruction encoding selection).operand slot).width :=
    loads_of_mem_transfers loaded
  have isLoaded := loads_of_read encodes holds inMemory loaded rfl
  refine Memory.read_ok_iff.mpr ⟨valid, ?_⟩
  rw [operand_instruction pass encoding encodes.regular slot] at inMemory ⊢
  exact value_of_loads isLoaded inMemory

end Pass

namespace Listing

/-! ## Sweeps -/

section Image

variable {config : Config} {image : Array UInt8} (short : image.size < UInt32.size)
  (fits : image.size ≤ Memory.roundedSize config.memorySize)

include short fits

/-- Loading an image that fits puts every byte of it where it is mapped. -/
theorem mirrors_start : (start config image).Mirrors := by
  intro address byte isMapped
  obtain ⟨exponent, size⟩ := Memory.exists_roundedSize config.memorySize
  obtain ⟨below, found⟩ := Array.getElem?_eq_some_iff.mp isMapped
  have place : config.loadAddress + UInt32.ofNat ((start config image).stream.offset address) =
      address := (start config image).stream.base_add_offset address
  have stored : ((Memory.zero config.memorySize).storeBytes config.loadAddress
      image.toList).readByte (config.loadAddress + UInt32.ofNat _) = _ :=
    Memory.readByte_storeBytes _ size fits (Nat.le_of_lt short) below
  rw [place] at stored
  exact stored.trans found

theorem Run.mirrors {run : List ListingEntry} {pass : Pass}
    (ran : Run (start config image) run pass) :
    pass.Mirrors ∧ pass.stream.bytes = image ∧ pass.stream.base = config.loadAddress := by
  obtain ⟨machine, -⟩ := ran.keeps (takeTrace_start config image)
  obtain ⟨-, stream, -⟩ := ran.takes short
  refine ⟨?_, by rw [stream]; rfl, by rw [stream]; rfl⟩
  intro address byte isMapped
  rw [stream, Stream.byteAt?_skip] at isMapped
  rw [machine]
  exact mirrors_start short fits address byte isMapped

/-- From the beginning to the end of a sweep, what is mapped at the addresses of a value is read
from memory as it is fetched from the stream, and it is the value of an operand that is loaded
from there. -/
theorem sweep_mirrors {run : List ListingEntry} {pass : Pass}
    (ran : Run (start config image) run pass) :
    (pass.stream.bytes = image ∧ pass.stream.base = config.loadAddress) ∧
    ∀ (address : UInt32) (width : UInt8), ValidWidth width →
      (∀ place < width.toNat,
        (pass.stream.byteAt? (address + UInt32.ofNat place)).isSome = true) →
      ∃ bytes : List UInt8, bytes.length = width.toNat ∧ pass.stream.HoldsAt address bytes ∧
        pass.machine.memory.read address width = .ok (LittleEndian.ofBytes bytes) ∧
        Stream.fetch width (pass.stream.seek address) = .ok (LittleEndian.ofBytes bytes)
          (pass.stream.seek (address + UInt32.ofNat width.toNat)) ∧
        ∀ (instruction : Instruction) (after : Pass) (slot : Slot),
          Pass.decode pass = .ok instruction after →
          (instruction.operand slot).kind = .memory →
          (instruction.operand slot).address = address →
          (instruction.operand slot).width = width →
          .loadMemory address width ∈ pass.transfers →
            (instruction.operand slot).value = LittleEndian.ofBytes bytes := by
  obtain ⟨mirrors, mapping⟩ := ran.mirrors short fits
  refine ⟨mapping, fun address width valid isMapped => ?_⟩
  obtain ⟨bytes, length, holds⟩ := Stream.exists_holdsAt isMapped
  obtain ⟨isRead, isFetched⟩ := mirrors.read_eq_fetch valid length holds
  refine ⟨bytes, length, holds, isRead, isFetched, ?_⟩
  rintro instruction after slot decoded inMemory rfl rfl loaded
  have value := Pass.read_of_loaded decoded inMemory loaded
  rw [isRead] at value
  exact (Except.ok.inj value).symm

end Image

/-- After `nop`, `mov eax, dword ptr [FFFFFFFEh]` in an image at that address loads the first four
bytes of the image, the last two of them from the beginning of the address space. -/
theorem sweep_mirrors_wrapped :
    let config := { Config.default with loadAddress := 0xFFFFFFFE }
    let image : Array UInt8 := #[0x90, 0xA1, 0xFE, 0xFF, 0xFF, 0xFF]
    image.size < UInt32.size ∧ image.size ≤ Memory.roundedSize config.memorySize ∧
      ∃ (entry : ListingEntry) (pass after : Pass) (instruction : Instruction),
        Run (start config image) [entry] pass ∧ Pass.decode pass = .ok instruction after ∧
          pass.machine.memory.read 0xFFFFFFFE 4 = .ok instruction.src.value ∧
          Stream.fetch 4 (pass.stream.seek 0xFFFFFFFE) =
            .ok instruction.src.value (pass.stream.seek 2) := by
  intro config image
  have short : image.size < UInt32.size := by decide
  have fits : image.size ≤ Memory.roundedSize config.memorySize := by decide
  -- The second instruction, with what is known of it before its value is.
  have checked : ((step (start config image)).toOption.bind fun one =>
      (step one.2).toOption.map fun other =>
        (other.1.instruction.src.kind, other.1.instruction.src.address,
          other.1.instruction.src.width,
          decide (MicroOp.loadMemory 0xFFFFFFFE 4 ∈ one.2.transfers),
          (List.range 4).all fun place =>
            (one.2.stream.byteAt? (0xFFFFFFFE + UInt32.ofNat place)).isSome)) =
      some (.memory, 0xFFFFFFFE, 4, true, true) := by
    decide +kernel
  cases first : step (start config image) with
  | error fault => simp [first, Except.toOption] at checked
  | ok one =>
      cases second : step one.2 with
      | error fault => simp [first, second, Except.toOption] at checked
      | ok other =>
          simp only [first, second, Except.toOption, Option.bind_some, Option.map_some,
            Option.some.injEq, Prod.mk.injEq, decide_eq_true_eq, List.all_eq_true,
            List.mem_range] at checked
          obtain ⟨inMemory, address, width, loaded, isMapped⟩ := checked
          obtain ⟨instruction, after, ran, entry, -⟩ := step_ok_iff.mp second
          have same : other.1.instruction = instruction := by rw [entry]
          rw [same] at inMemory address width
          have run : Run (start config image) [one.1] one.2 :=
            .cons (by decide +kernel) first (.nil one.2)
          obtain ⟨-, agree⟩ := sweep_mirrors short fits run
          obtain ⟨bytes, -, -, isRead, isFetched, staged⟩ :=
            agree 0xFFFFFFFE 4 (.inr (.inr rfl)) isMapped
          have value : instruction.src.value = LittleEndian.ofBytes bytes :=
            staged instruction after .src ran inMemory address width loaded
          rw [← value] at isRead isFetched
          exact ⟨short, fits, one.1, one.2, after, instruction, run, ran, isRead, isFetched⟩

end Listing

end I386
