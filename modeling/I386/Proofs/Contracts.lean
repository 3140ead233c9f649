import I386.Listing
import I386.Proofs.Heading

/-!
Contract: decoding and listing break no contract.

Owns:
- the indices into the opcode maps, into groups, into memory and into the mapping are in range, so
  that what is found in every row of a map holds of the row of every byte;
- operands of valid widths, and loads at valid widths, have texts;
- decoding succeeds or finds an error in the stream, and so does the sweep over an image.

Main statement: no decoder, stream or machine brings decoding to a violation, what it decodes has
a text, and an image that can be listed at all is listed or refused for an error in it.

Does not own: which errors there are.
-/

namespace I386

/-! ## Indices -/

/-- The indices that decoding computes from bytes are those of entries in the opcode maps. -/
structure OpcodeMap.Covers : Prop where
  oneByte : ∀ byte : UInt8, byte.toNat < OpcodeMap.oneByte.size
  twoByte : ∀ second : UInt8,
    (second - twoByteStart).toNat < OpcodeMap.twoByte.size ↔ 0x80 ≤ second ∧ second ≤ 0xBF
  members : ∀ (group : Group) (modRm : ModRm), modRm.reg.toNat < group.members.length

theorem ModRm.toNat_reg_lt (modRm : ModRm) : modRm.reg.toNat < 8 := by
  unfold reg
  rw [UInt8.toNat_and]
  exact Nat.lt_of_le_of_lt Nat.and_le_right (by decide)

theorem OpcodeMap.covers : OpcodeMap.Covers where
  oneByte := by
    have size : OpcodeMap.oneByte.size = 256 := by decide +kernel
    intro byte
    rw [size]
    exact byte.toNat_lt
  twoByte := by
    have size : OpcodeMap.twoByte.size = 64 := by decide +kernel
    have all : ∀ index : Fin 256, (UInt8.ofNat index - twoByteStart).toNat < 64 ↔
        0x80 ≤ UInt8.ofNat index ∧ UInt8.ofNat index ≤ 0xBF := by
      decide +kernel
    intro second
    rw [size]
    simpa using all ⟨second.toNat, second.toNat_lt⟩
  members := by
    intro group modRm
    have length : group.members.length = 8 := by
      cases group <;> rfl
    rw [length]
    exact modRm.toNat_reg_lt

/-- What is found in every row of the one-byte map holds of the row of each byte. -/
theorem OpcodeMap.check_oneByteRow (check : UInt8 → Row → Bool)
    (all : (oneByte.toList.zipIdx.all fun entry => check (UInt8.ofNat entry.2) entry.1) = true)
    (byte : UInt8) : check byte (oneByteRow byte) = true := by
  have inside := covers.oneByte byte
  have entry : oneByteRow byte = oneByte[byte.toNat] := by
    rw [oneByteRow, Array.getElem?_eq_getElem inside, Option.getD_some]
  have isIn : (oneByte[byte.toNat], byte.toNat) ∈ oneByte.toList.zipIdx :=
    List.mem_zipIdx_iff_getElem?.mpr (by simp [inside])
  have checked := List.all_eq_true.mp all _ isIn
  rw [UInt8.ofNat_toNat] at checked
  rw [entry]
  exact checked

/-- Bytes outside the two-byte map have an unassigned row. -/
theorem OpcodeMap.check_twoByteRow (check : UInt8 → Row → Bool)
    (gap : ∀ second : UInt8, ¬(0x80 ≤ second ∧ second ≤ 0xBF) → check second .unassigned = true)
    (all : (twoByte.toList.zipIdx.all fun entry =>
      check (UInt8.ofNat entry.2 + twoByteStart) entry.1) = true)
    (second : UInt8) : check second (twoByteRow second) = true := by
  by_cases inside : (second - twoByteStart).toNat < twoByte.size
  · have high : ¬second < twoByteStart := UInt8.not_lt.mpr ((covers.twoByte second).mp inside).1
    have entry : twoByteRow second = twoByte[(second - twoByteStart).toNat] := by
      rw [twoByteRow, if_neg high, Array.getElem?_eq_getElem inside, Option.getD_some]
    have isIn : (twoByte[(second - twoByteStart).toNat], (second - twoByteStart).toNat) ∈
        twoByte.toList.zipIdx := List.mem_zipIdx_iff_getElem?.mpr (by simp [inside])
    have checked := List.all_eq_true.mp all _ isIn
    rw [UInt8.ofNat_toNat, UInt8.sub_add_cancel] at checked
    rw [entry]
    exact checked
  · have unassigned : twoByteRow second = .unassigned := by
      rw [twoByteRow, Array.getElem?_eq_none (Nat.le_of_not_lt inside), Option.getD_none, ite_self]
    rw [unassigned]
    exact gap second fun bounds => inside ((covers.twoByte second).mpr bounds)

theorem Memory.roundedSize_pos (requested : Nat) : 0 < roundedSize requested := by
  unfold roundedSize
  by_cases small : requested ≤ 1
  · rw [if_pos small]
    exact Nat.one_pos
  · rw [if_neg small]
    exact Nat.two_pow_pos _

/-- Every address selects a byte of memory. -/
theorem Memory.index_lt {memory : Memory} {requested : Nat}
    (size : memory.size = roundedSize requested) (address : UInt32) :
    memory.index address < memory.size := by
  have positive : 0 < memory.size := size ▸ roundedSize_pos requested
  have masked : memory.index address ≤ memory.addressMask.toNat := by
    unfold index
    rw [UInt32.toNat_and]
    exact Nat.and_le_right
  have mask : memory.addressMask.toNat ≤ memory.size - 1 := by
    unfold addressMask
    rw [UInt32.toNat_ofNat']
    exact Nat.mod_le _ _
  omega

@[simp] theorem Memory.size_storeBytes (memory : Memory) (address : UInt32)
    (bytes : List UInt8) : (memory.storeBytes address bytes).size = memory.size := by
  induction bytes generalizing memory address with
  | nil => rfl
  | cons byte rest inductionHypothesis =>
      rw [storeBytes, inductionHypothesis]
      rfl

/-- A slice of the mapping lies within it. -/
theorem Stream.exists_slice (stream : Stream) (start stop : UInt32) :
    ∃ first last : Nat, first ≤ last ∧ last ≤ stream.bytes.size ∧
      stream.slice start stop = stream.bytes.extract first last := by
  refine ⟨_, _, Nat.le_max_left _ _, ?_, rfl⟩
  exact Nat.max_le.mpr ⟨Nat.min_le_right _ _, Nat.min_le_right _ _⟩

/-! ## Texts -/

section Except

variable {ε α β : Type} {first : Except ε α} {next : α → Except ε β}

theorem except_bind_ok_iff {result : β} :
    (first >>= next) = .ok result ↔
      ∃ value, first = .ok value ∧ next value = .ok result := by
  cases first with
  | ok value => simp [bind, Except.bind]
  | error fault => simp [bind, Except.bind]

end Except

theorem exists_bind_ok {α β : Type} {first : Except Violation α} {next : α → Except Violation β}
    (one : ∃ value, first = .ok value) (rest : ∀ value, ∃ result, next value = .ok result) :
    ∃ result, (first >>= next) = .ok result := by
  obtain ⟨value, rfl⟩ := one
  exact rest value

/-- Where every item has a result, so has the whole list. -/
theorem exists_mapM_ok {α β : Type} {action : α → Except Violation β} {items : List α}
    (each : ∀ item ∈ items, ∃ result, action item = .ok result) :
    ∃ results, items.mapM action = .ok results := by
  induction items with
  | nil => exact ⟨[], rfl⟩
  | cons item rest inductionHypothesis =>
      obtain ⟨one, eachRest⟩ := List.forall_mem_cons.mp each
      rw [List.mapM_cons]
      apply exists_bind_ok one
      intro result
      exact exists_bind_ok (inductionHypothesis eachRest) fun results => ⟨result :: results, rfl⟩

theorem Register.exists_name (number : UInt8) {width : UInt8} (valid : ValidWidth width) :
    ∃ text, name number width = .ok text := by
  rcases valid with rfl | rfl | rfl
  · exact ⟨_, rfl⟩
  · exact ⟨_, rfl⟩
  · exact ⟨_, rfl⟩

theorem MicroOp.Loads.exists_text {op : MicroOp} (loads : op.Loads) :
    ∃ text, op.text = .ok text := by
  cases op with
  | loadImmediate value => exact ⟨_, rfl⟩
  | loadRegister number width =>
      exact exists_bind_ok (Register.exists_name number loads) fun _ => ⟨_, rfl⟩
  | loadMemory address width => exact ⟨_, rfl⟩
  | storeRegister number width value => exact loads.elim
  | storeMemory address width value => exact loads.elim

theorem Operand.exists_text {operand : Operand} (valid : ValidWidth operand.width) :
    ∃ text, operand.text = .ok text := by
  unfold text
  cases operand.kind with
  | none => exact ⟨_, rfl⟩
  | register => exact Register.exists_name _ valid
  | memory => exact ⟨_, rfl⟩
  | immediate => exact ⟨_, rfl⟩

theorem Instruction.exists_text {instruction : Instruction}
    (valid : ∀ operand ∈ [instruction.dest, instruction.src2, instruction.src],
      ValidWidth operand.width) :
    ∃ text, instruction.text = .ok text := by
  have each : ∀ operand ∈ instruction.operands, ∃ text, operand.text = .ok text := by
    intro operand isIn
    exact Operand.exists_text (valid operand (List.mem_filter.mp isIn).1)
  have operands : ∃ text, instruction.operandText = .ok text := by
    unfold operandText
    cases instruction.branchTarget with
    | some target => exact ⟨_, rfl⟩
    | none => exact exists_bind_ok (exists_mapM_ok each) fun _ => ⟨_, rfl⟩
  exact exists_bind_ok operands fun _ => ⟨_, rfl⟩

/-! ## Decoding -/

namespace Pass

/-- Decoding succeeds with an instruction that has a text, after loads only, or it finds an error
in the stream. -/
theorem decode_sound (pass : Pass) :
    (∃ (instruction : Instruction) (after : Pass) (ops : List MicroOp),
      decode pass = .ok instruction after ∧ (∃ text, instruction.text = .ok text) ∧
        after.machine = pass.machine.recordAll ops ∧ ∀ op ∈ ops, op.Loads) ∨
    ∃ (error : DecodeError) (failed : Pass), decode pass = .error (.decode error) failed := by
  rcases decode_outcome pass.stream pass.decoder.defaultSize with
    ⟨error, after, refused⟩ | ⟨heading, between, regular, ran⟩
  · exact .inr ⟨error, _, refused pass.machine pass.decoder rfl⟩
  · obtain ⟨ops, conduct⟩ :=
      exists_conduct_steps regular ⟨between, pass.machine, pass.decoder⟩
    rw [show decode pass = _ from ran pass.machine pass.decoder rfl]
    cases outcome : Step.runAll heading.selection.steps
        (heading.begun ⟨between, pass.machine, pass.decoder⟩) with
    | error fault failed =>
        obtain ⟨error, rfl, -⟩ := conduct.obeys fault failed outcome
        exact .inr ⟨error, failed, decodeOperands_of_error _ outcome⟩
    | ok value decoded =>
        have recorded := conduct.recorded
        have sized := conduct.sized
        rw [outcome] at recorded sized
        rw [decodeOperands_of_ok _ outcome, Heading.concluded]
        split
        · have valid : ∀ operand ∈
              [decoded.decoder.dest, decoded.decoder.src2, decoded.decoder.src],
              ValidWidth operand.width := by
            simpa using ⟨sized .dest, sized .src2, sized .src⟩
          refine .inl ⟨_, _, ops, rfl, Instruction.exists_text valid, ?_, conduct.loads⟩
          exact recorded.trans (congrArg (·.recordAll ops) (machine_begun _ _))
        · exact .inr ⟨_, _, rfl⟩

end Pass

/-! ## Listing -/

/-- An entry whose lines can be shown. -/
structure ListingEntry.Printable (entry : ListingEntry) : Prop where
  instruction : ∃ text, entry.instruction.text = .ok text
  microOps : ∀ op ∈ entry.microOps, op.Loads

theorem ListingEntry.Printable.exists_lines {entry : ListingEntry} (printable : entry.Printable) :
    ∃ lines, entry.lines = .ok lines := by
  have each : ∀ op ∈ entry.microOps, ∃ line, microOpLine op = .ok line := by
    intro op isIn
    exact exists_bind_ok (printable.microOps op isIn).exists_text fun _ => ⟨_, rfl⟩
  have line : ∃ line, entry.line = .ok line :=
    exists_bind_ok printable.instruction fun _ => ⟨_, rfl⟩
  exact exists_bind_ok line fun _ => exists_bind_ok (exists_mapM_ok each) fun _ => ⟨_, rfl⟩

/-- What was recorded after nothing else is at most what is recorded now. -/
theorem Machine.mem_recorded_recordAll {machine : Machine} {ops : List MicroOp} {op : MicroOp}
    (drained : machine.recorded = []) (isIn : op ∈ (machine.recordAll ops).recorded) :
    op ∈ ops := by
  obtain ⟨registers, memory, trace⟩ := machine
  cases trace with
  | none => cases isIn
  | some earlier =>
      have none : earlier.toList = [] := drained
      have all : op ∈ (earlier ++ ops.toArray).toList := isIn
      rwa [Array.toList_append, none, List.nil_append] at all

theorem Machine.recorded_takeTrace (machine : Machine) : machine.takeTrace.2.recorded = [] := by
  obtain ⟨registers, memory, trace⟩ := machine
  cases trace <;> rfl

namespace Listing

/-- A step from a machine from which everything recorded was taken gives an entry that can be
shown, and takes what it recorded, or it finds an error in the image. -/
theorem step_sound {pass : Pass} (drained : pass.machine.recorded = []) :
    (∃ (entry : ListingEntry) (after : Pass), step pass = .ok (entry, after) ∧
      entry.Printable ∧ after.machine.recorded = []) ∨
    ∃ error, step pass = .error (.refused error) := by
  unfold step
  rcases pass.decode_sound with ⟨instruction, after, ops, ran, text, recorded, loads⟩ |
    ⟨error, failed, ran⟩
  · refine .inl ⟨_, _, by rw [ran], ⟨text, ?_⟩, after.machine.recorded_takeTrace⟩
    intro op isIn
    have among : op ∈ after.machine.recorded := isIn
    rw [recorded] at among
    exact loads op (Machine.mem_recorded_recordAll drained among)
  · exact .inr ⟨_, by rw [ran]⟩

theorem sweep_sound (limit : Nat) (entries : Array ListingEntry) {pass : Pass}
    (drained : pass.machine.recorded = []) (printable : ∀ entry ∈ entries, entry.Printable) :
    (∃ all, sweep entries limit pass = .ok all ∧ ∀ entry ∈ all, entry.Printable) ∨
    ∃ error, sweep entries limit pass = .error (.refused error) := by
  induction limit generalizing entries pass with
  | zero => exact .inl ⟨entries, rfl, printable⟩
  | succ limit inductionHypothesis =>
      unfold sweep
      split
      · exact .inl ⟨entries, rfl, printable⟩
      · rcases step_sound drained with ⟨entry, after, ran, shown, still⟩ | ⟨error, ran⟩
        · rw [ran]
          apply inductionHypothesis _ still
          intro other isIn
          rcases Array.mem_push.mp isIn with earlier | rfl
          · exact printable other earlier
          · exact shown
        · exact .inr ⟨error, by rw [ran]⟩

theorem recorded_start (config : Config) (image : Array UInt8) :
    (start config image).machine.recorded = [] := by
  unfold start Machine.setTrace Machine.recorded
  cases config.traceMicroOps <;> rfl

/-- An image is listed, or it is refused. -/
theorem lines_sound {config : Config} (possible : Memory.isPossible config.memorySize = true)
    (image : Array UInt8) (count : Option Nat) :
    (∃ text, lines config image count = .ok text) ∨
    ∃ error, lines config image count = .error (.refused error) := by
  unfold lines entries
  rw [if_neg (not_not_intro possible)]
  by_cases large : image.size > Memory.roundedSize config.memorySize
  · exact .inr ⟨_, by rw [if_pos large]; rfl⟩
  · rw [if_neg large]
    rcases sweep_sound (limit image count) #[] (recorded_start config image) (by simp) with
      ⟨all, ran, printable⟩ | ⟨error, ran⟩
    · have each : ∀ entry ∈ all.toList, ∃ lines, entry.lines = .ok lines := by
        intro entry isIn
        exact (printable entry (Array.mem_toList_iff.mp isIn)).exists_lines
      have rendered : ∃ text, render all.toList = .ok text :=
        exists_bind_ok (exists_mapM_ok each) fun _ => ⟨_, rfl⟩
      obtain ⟨text, rendered⟩ := rendered
      refine .inl ⟨text, ?_⟩
      rw [ran]
      show (render all.toList).mapError ListingFault.violation = .ok text
      rw [rendered]
      rfl
    · refine .inr ⟨error, ?_⟩
      rw [ran]
      rfl

end Listing

/-! ## Whatever is decoded -/

/-- Whatever the stream, the cursor, the decoder and a machine with memory of any size: all
look-ups are in range, and decoding succeeds with an instruction that has a text or finds an error
in the stream. An image for which there can be memory is listed or refused. -/
theorem Pass.decode_keeps_contracts (pass : Pass) {requested : Nat}
    (size : pass.machine.memory.size = Memory.roundedSize requested) :
    OpcodeMap.Covers ∧
      (∀ address, pass.machine.memory.index address < pass.machine.memory.size) ∧
      ((∃ (instruction : Instruction) (after : Pass), decode pass = .ok instruction after ∧
          ∃ text, instruction.text = .ok text) ∨
        ∃ (error : DecodeError) (failed : Pass),
          decode pass = .error (.decode error) failed) ∧
      ∀ (config : Config) (image : Array UInt8) (count : Option Nat),
        Memory.isPossible config.memorySize = true →
          (∀ address, (Listing.start config image).machine.memory.index address <
            Memory.roundedSize config.memorySize) ∧
          (∀ start stop, ∃ first last : Nat, first ≤ last ∧ last ≤ image.size ∧
            (Listing.start config image).stream.slice start stop = image.extract first last) ∧
          ((∃ text, Listing.lines config image count = .ok text) ∨
            ∃ error, Listing.lines config image count = .error (.refused error)) := by
  refine ⟨OpcodeMap.covers, Memory.index_lt size, ?_, ?_⟩
  · rcases pass.decode_sound with ⟨instruction, after, -, ran, text, -⟩ | refused
    · exact .inl ⟨instruction, after, ran, text⟩
    · exact .inr refused
  · intro config image count possible
    have loaded : (Listing.start config image).machine.memory.size =
        Memory.roundedSize config.memorySize :=
      Memory.size_storeBytes _ _ _
    refine ⟨fun address => loaded ▸ Memory.index_lt loaded address, ?_,
      Listing.lines_sound possible image count⟩
    exact (Listing.start config image).stream.exists_slice

/-- An instruction cut off within its displacement, on a machine with 256 bytes of memory. -/
theorem Pass.decode_keeps_contracts_cut :
    (ofBytes #[0x8B, 0x80, 0x01] []).machine.memory.size = Memory.roundedSize 0x100 ∧
      ((∃ (instruction : Instruction) (after : Pass),
          decode (.ofBytes #[0x8B, 0x80, 0x01] []) = .ok instruction after ∧
            ∃ text, instruction.text = .ok text) ∨
        ∃ (error : DecodeError) (failed : Pass),
          decode (.ofBytes #[0x8B, 0x80, 0x01] []) = .error (.decode error) failed) ∧
      Memory.isPossible Config.default.memorySize = true ∧
      ((∃ text, Listing.lines .default #[0x8B, 0x80, 0x01] none = .ok text) ∨
        ∃ error, Listing.lines .default #[0x8B, 0x80, 0x01] none = .error (.refused error)) := by
  have size : (ofBytes #[0x8B, 0x80, 0x01] []).machine.memory.size =
      Memory.roundedSize 0x100 := by decide
  have possible : Memory.isPossible Config.default.memorySize = true := by decide
  obtain ⟨-, -, decoded, listed⟩ := decode_keeps_contracts (.ofBytes #[0x8B, 0x80, 0x01] []) size
  exact ⟨size, decoded, possible, (listed .default #[0x8B, 0x80, 0x01] none possible).2.2⟩

end I386
