import I386.Proofs.Independence
import I386.Proofs.PrefixRun

/-!
Contract: the places that errors of decoding name.

Owns:
- what stands before the operands of an instruction: a run of prefixes and an opcode;
- why an opcode is refused;
- the failures of both halves of decoding.

Main statement: every failure is an error of the stream, and it names the address of the missing
byte, of the refused instruction or of the refused ModR/M byte, whatever the machine holds.

Does not own: which instructions are accepted.
-/

namespace I386

/-! ## Opcodes without meaning -/

/-- Why an opcode is refused at an operand size, before a byte that may be a ModR/M byte. All second
bytes outside `80` to `BF` have unassigned rows. -/
inductive OpcodeBytes.Refused (opcode : OpcodeBytes) (size : OperandSize) (next : Option UInt8) :
    Prop where
  | unassigned (row : opcode.row = .unassigned)
  | member {group : Group} {form : Form} {byte : UInt8} (row : opcode.row = .group group form)
      (isNext : next = some byte) (isNone : group.member? (ModRm.mk byte).reg = none)
  | near (size : size = .bits16) (length : branchLength? opcode.found.code = some 4)

/-- A row from which nothing is selected is unassigned, or a group without such a member. -/
theorem OpcodeBytes.refused_of_none {opcode : OpcodeBytes} {size : OperandSize}
    {next : Option UInt8}
    (isGroup : ∀ group form, opcode.row = .group group form → next.isSome = true)
    (isNone : opcode.row.selection? (next.map ModRm.mk) = none) : opcode.Refused size next := by
  cases row : opcode.row with
  | unassigned => exact .unassigned row
  | instruction mnemonic form =>
      rw [row] at isNone
      cases isNone
  | group group form =>
      obtain ⟨byte, isNext⟩ := Option.isSome_iff_exists.mp (isGroup group form row)
      refine .member row isNext (Option.eq_none_iff_forall_ne_some.mpr ?_)
      rw [row, isNext] at isNone
      simpa [Row.selection?] using isNone

/-- Only `8D` takes an address. -/
theorem OpcodeBytes.eq_of_address {opcode : OpcodeBytes} {modRm : Option ModRm}
    {selection : Selection} (selected : opcode.row.selection? modRm = some selection)
    (address : selection.form.shape = .addressToReg) : opcode = .oneByte 0x8D := by
  rw [Row.form_selection? selected] at address
  cases opcode with
  | oneByte byte =>
      have only := OpcodeMap.check_oneByteRow
        (fun byte row => row.form.shape ≠ .addressToReg ∨ byte = 0x8D) (by decide +kernel) byte
      have only := (of_decide_eq_true only).resolve_left (· address)
      rw [only]
  | twoByte second =>
      have never := OpcodeMap.check_twoByteRow (fun _ row => row.form.shape ≠ .addressToReg)
        (fun _ _ => by decide) (by decide +kernel) second
      exact absurd address (of_decide_eq_true never)

theorem ModRm.topBits_of_register {byte : UInt8} (register : (ModRm.mk byte).isMemory = false) :
    byte &&& 0xC0 = 0xC0 := by
  have all : ∀ index : Fin 256, (ModRm.mk (UInt8.ofNat index)).isMemory = false →
      UInt8.ofNat index &&& 0xC0 = 0xC0 := by
    decide +kernel
  have checked := all ⟨byte.toNat, byte.toNat_lt⟩
  rw [UInt8.ofNat_toNat] at checked
  exact checked register

namespace Pass

/-! ## The first half -/

/-- A byte is wanted at the cursor, where none is mapped. -/
def Exhausted (fault : Fault) (failed : Pass) : Prop :=
  fault = .decode (.readOutOfBounds failed.stream.cursor) ∧
    failed.stream.byteAt? failed.stream.cursor = none

section Error

variable {pass failed : Pass} {fault : Fault}

theorem exhausted_of_fetchByte (ran : fetchByte pass = .error fault failed) :
    Exhausted fault failed := by
  cases mapped : pass.stream.byteAt? pass.stream.cursor with
  | none =>
      cases ran.symm.trans (fetchByte_of_unmapped pass mapped)
      exact ⟨rfl, mapped⟩
  | some byte => cases ran.symm.trans (fetchByte_ok_iff.mpr ⟨mapped, rfl⟩)

theorem exhausted_of_peekByte (ran : peekByte pass = .error fault failed) :
    Exhausted fault failed := by
  cases mapped : pass.stream.byteAt? pass.stream.cursor with
  | none =>
      cases ran.symm.trans (peekByte_of_unmapped pass mapped)
      exact ⟨rfl, mapped⟩
  | some byte => cases ran.symm.trans (peekByte_ok_iff.mpr ⟨mapped, rfl⟩)

theorem exhausted_of_readOpcode {byte : UInt8} (ran : readOpcode byte pass = .error fault failed) :
    Exhausted fault failed := by
  unfold readOpcode at ran
  split at ran
  · rcases bind_error_iff.mp ran with missing | ⟨second, between, -, rest⟩
    · exact exhausted_of_fetchByte missing
    · cases rest
  · cases ran

theorem exhausted_of_select? {row : Row} (ran : select? row pass = .error fault failed) :
    Exhausted fault failed := by
  cases row with
  | unassigned => cases ran
  | instruction mnemonic form => cases ran
  | group group form =>
      rcases bind_error_iff.mp ran with missing | ⟨byte, between, -, rest⟩
      · exact exhausted_of_peekByte missing
      · cases rest

theorem refused_of_select {start : UInt32} {size : OperandSize} {opcode : OpcodeBytes}
    (ran : select start size opcode.found pass = .error fault failed) :
    Exhausted fault failed ∨
      fault = .decode (.unsupportedOpcode opcode.found.code start) ∧
        opcode.Refused size (pass.stream.byteAt? pass.stream.cursor) := by
  rcases bind_error_iff.mp ran with missing | ⟨found, between, chosen, rest⟩
  · exact .inl (exhausted_of_select? missing)
  · obtain ⟨isGroup, isFound, rfl⟩ := select?_ok_iff.mp chosen
    rw [opcode.row_found] at isGroup isFound
    refine .inr ?_
    cases found with
    | none =>
        cases rest
        refine ⟨rfl, OpcodeBytes.refused_of_none (fun group form row => ?_) isFound.symm⟩
        exact Option.isSome_map.symm.trans (isGroup group form row)
    | some selection =>
        by_cases isNear : (isNearBranch selection.form && size == .bits16) = true
        · simp only [isNear, if_true] at rest
          cases rest
          refine ⟨rfl, ?_⟩
          simp only [isNearBranch, Bool.and_eq_true, beq_iff_eq] at isNear
          obtain ⟨⟨shape, width⟩, isSmall⟩ := isNear
          refine .near isSmall ?_
          rw [OpcodeBytes.branchLength?_of_selected isFound.symm size, if_pos shape, width]
          rfl
        · simp only [isNear] at rest
          cases rest

/-- What the bytes after a run of prefixes are refused for, in the instruction at `start`. -/
inductive Refused (start : UInt32) (size : OperandSize) (stream : Stream) : Fault → Prop where
  | override (mapped : stream.byteAt? stream.cursor = some 0x67) :
      Refused start size stream (.decode (.unsupportedOpcode 0x67 start))
  | opcode (opcode : OpcodeBytes) (notOverride : opcode.first ≠ 0x67)
      (unescaped : opcode.Unescaped) (holds : stream.Holds opcode.bytes)
      (refused : opcode.Refused size
        ((stream.skip opcode.bytes.length).byteAt? (stream.skip opcode.bytes.length).cursor)) :
      Refused start size stream (.decode (.unsupportedOpcode opcode.found.code start))

theorem refused_of_readBare {start : UInt32} {size : OperandSize} {prefixes : PrefixSet}
    (ran : readBare start size prefixes pass = .error fault failed) :
    Exhausted fault failed ∨ Refused start size pass.stream fault := by
  rcases bind_error_iff.mp ran with missing | ⟨byte, _, fetched, rest⟩
  · exact .inl (exhausted_of_fetchByte missing)
  obtain ⟨mapped, rfl⟩ := fetchByte_ok_iff.mp fetched
  by_cases isOverride : byte = addressSizeOverride
  · rw [if_pos isOverride] at rest
    cases rest
    rw [isOverride] at mapped ⊢
    exact .inr (.override mapped)
  rw [if_neg isOverride] at rest
  rcases bind_error_iff.mp rest with missing | ⟨_, _, read, rest⟩
  · exact .inl (exhausted_of_readOpcode missing)
  obtain ⟨opcode, rfl, unescaped, holds, rfl, rfl⟩ := readOpcode_ok_iff.mp read
  rcases bind_error_iff.mp rest with failure | ⟨selection, _, -, rest⟩
  · rcases refused_of_select failure with missing | ⟨rfl, refused⟩
    · exact .inl missing
    · have length : opcode.bytes.length = 1 + opcode.rest.length := by
        rw [opcode.bytes_eq, List.length_cons, Nat.add_comm]
      refine .inr (.opcode opcode isOverride unescaped ?_ ?_)
      · rw [opcode.bytes_eq]
        exact Stream.holds_cons.mpr ⟨mapped, holds⟩
      · rw [length, ← Stream.skip_skip]
        exact refused
  · cases rest

theorem opcode_of_readBare {start : UInt32} {size : OperandSize} {prefixes : PrefixSet}
    {heading : Heading} {after : Pass}
    (ran : readBare start size prefixes pass = .ok heading after) :
    ∃ opcode : OpcodeBytes, opcode.first ≠ 0x67 ∧ opcode.Unescaped ∧
      pass.stream.Holds opcode.bytes ∧ heading.opcode = opcode.found ∧
      opcode.row.selection? after.nextModRm? = some heading.selection ∧
      after = pass.skip opcode.bytes.length := by
  obtain ⟨byte, _, fetched, rest⟩ := bind_ok_iff.mp ran
  obtain ⟨mapped, rfl⟩ := fetchByte_ok_iff.mp fetched
  by_cases isOverride : byte = addressSizeOverride
  · rw [if_pos isOverride] at rest
    cases rest
  rw [if_neg isOverride] at rest
  simp only [readOperation, bind_ok_iff, readOpcode_ok_iff, select_ok_iff, pure_ok_iff] at rest
  obtain ⟨_, _, ⟨opcode, rfl, unescaped, holds, rfl, rfl⟩, _, _, ⟨-, selected, -, rfl⟩, rfl, rfl⟩ :=
    rest
  rw [opcode.row_found] at selected
  refine ⟨opcode, isOverride, unescaped, ?_, rfl, selected, ?_⟩
  · rw [opcode.bytes_eq]
    exact Stream.holds_cons.mpr ⟨mapped, holds⟩
  · rw [opcode.bytes_eq, List.length_cons, Nat.add_comm]
    exact skip_skip _ _ _

/-! ## The second half -/

/-- The steps of an operation fail for want of a byte, or they would take the address of a
register. -/
theorem error_of_steps {heading : Heading} (regular : heading.selection.Regular)
    (recording : pass.machine.trace = some #[])
    (ran : Step.runAll heading.selection.steps (heading.begun pass) = .error fault failed) :
    Exhausted fault failed ∨
      heading.selection.form.shape = .addressToReg ∧ ∃ byte, pass.AtRegister byte ∧
        fault = .decode (.invalidModRm byte pass.stream.cursor) ∧
        failed = heading.begun pass := by
  -- The steps run in parallel with themselves, which leaves three ways to fail.
  have alike : (heading.begun pass).Alike True True (heading.begun pass) :=
    alike_self heading recording
  rcases Selection.matches_steps regular (fun _ _ _ => trivial) alike with
    same | ⟨address, byte, atRegister⟩
  · obtain ⟨ops, conduct⟩ := exists_conduct_steps regular pass
    obtain ⟨error, isError, -⟩ := conduct.obeys _ _ ran
    rw [ran] at same
    cases same with
    | exhausted stopped unmapped => exact .inl ⟨rfl, unmapped⟩
    | violation violation stopped => cases isError
  · have steps := Selection.runAll_of_register regular address atRegister
    have stream : (heading.begun pass).stream = pass.stream := stream_begun ..
    cases steps.symm.trans ran
    unfold AtRegister at atRegister ⊢
    rw [stream] at atRegister ⊢
    exact .inr ⟨address, byte, atRegister, rfl, rfl⟩

theorem error_of_decodeOperands {heading : Heading} (regular : heading.selection.Regular)
    {start : UInt32} (recording : pass.machine.trace = some #[])
    (ran : decodeOperands start heading pass = .error fault failed) :
    Exhausted fault failed ∨ fault = .decode (.instructionTooLong start) ∨
      heading.selection.form.shape = .addressToReg ∧ ∃ byte, pass.AtRegister byte ∧
        fault = .decode (.invalidModRm byte pass.stream.cursor) ∧
        failed = heading.begun pass := by
  cases steps : Step.runAll heading.selection.steps (heading.begun pass) with
  | ok _ decoded =>
      rw [decodeOperands_of_ok start steps] at ran
      unfold Heading.concluded at ran
      split at ran
      · cases ran
      · cases ran
        exact .inr (.inl rfl)
  | error found stopped =>
      cases (decodeOperands_of_error start steps).symm.trans ran
      exact (error_of_steps regular recording steps).imp_right .inr

end Error

/-! ## Runs of prefixes -/

/-- The prefixes at the cursor are a run that ends, or there are as many as one likes. -/
theorem exists_run (pass : Pass) (count : Nat) :
    (∃ run : List UInt8, run.length = count ∧ (∀ byte ∈ run, byte ∈ prefixBytes) ∧
      pass.stream.Holds run) ∨
      ∃ run : List UInt8, run.length < count ∧ pass.BeginsWith run := by
  induction count with
  | zero => exact .inl ⟨[], rfl, by simp, Stream.holds_nil⟩
  | succ count inductionHypothesis =>
      rcases inductionHypothesis with ⟨run, length, prefixes, holds⟩ | ⟨run, short, begins⟩
      · let next := (pass.stream.skip run.length).byteAt? (pass.stream.skip run.length).cursor
        by_cases more : ∃ byte ∈ prefixBytes, next = some byte
        · obtain ⟨byte, isPrefix, mapped⟩ := more
          refine .inl ⟨run ++ [byte], by simp [length], ?_, ?_⟩
          · exact List.forall_mem_append.mpr ⟨prefixes, List.forall_mem_singleton.mpr isPrefix⟩
          · exact Stream.holds_append.mpr
              ⟨holds, Stream.holds_cons.mpr ⟨mapped, Stream.holds_nil⟩⟩
        · exact .inr ⟨run, by omega, prefixes, holds,
            fun byte mapped isPrefix => more ⟨byte, isPrefix, mapped⟩⟩
      · exact .inr ⟨run, by omega, begins⟩

theorem BeginsWith.retraced {pass : Pass} {run : List UInt8} (begins : pass.BeginsWith run)
    (trace : Option (Array MicroOp)) : (pass.retraced trace).BeginsWith run :=
  ⟨begins.prefixes, begins.holds, begins.ends⟩

/-- A run of at most fourteen prefixes stands at the cursor and an opcode after it. -/
structure AtOpcode (pass : Pass) (run : List UInt8) (opcode : OpcodeBytes) : Prop where
  few : run.length ≤ 14
  prefixes : ∀ byte ∈ run, byte ∈ prefixBytes
  other : opcode.first ∉ prefixBytes
  notOverride : opcode.first ≠ 0x67
  unescaped : opcode.Unescaped
  holds : pass.stream.Holds (run ++ opcode.bytes)

theorem BeginsWith.atOpcode {pass : Pass} {run : List UInt8} {opcode : OpcodeBytes}
    (begins : pass.BeginsWith run) (few : run.length ≤ 14) (notOverride : opcode.first ≠ 0x67)
    (unescaped : opcode.Unescaped) (holds : (pass.skip run.length).stream.Holds opcode.bytes) :
    pass.AtOpcode run opcode where
  few := few
  prefixes := begins.prefixes
  other := by
    rw [opcode.bytes_eq] at holds
    exact begins.ends _ (Stream.holds_cons.mp holds).1
  notOverride := notOverride
  unescaped := unescaped
  holds := Stream.holds_append.mpr ⟨begins.holds, holds⟩

theorem AtOpcode.beginsWith {pass : Pass} {run : List UInt8} {opcode : OpcodeBytes}
    (atOpcode : pass.AtOpcode run opcode) : pass.BeginsWith run := by
  have holds := atOpcode.holds
  rw [opcode.bytes_eq] at holds
  exact beginsWith_of_holds atOpcode.prefixes atOpcode.other holds

/-! ## Places -/

/-- An opcode is unsupported: an address-size override, or one that is refused where it stands. -/
inductive Unsupported (pass : Pass) : UInt16 → Prop where
  | override (run : List UInt8) (few : run.length ≤ 14)
      (prefixes : ∀ byte ∈ run, byte ∈ prefixBytes)
      (holds : pass.stream.Holds (run ++ [0x67])) : Unsupported pass 0x67
  | opcode (run : List UInt8) (opcode : OpcodeBytes) (atOpcode : pass.AtOpcode run opcode)
      (refused : opcode.Refused (runSize run pass.decoder.defaultSize)
        (pass.stream.byteAt?
          (pass.stream.cursor + UInt32.ofNat (run.length + opcode.bytes.length)))) :
      Unsupported pass opcode.found.code

/-- What an error says of the pass that was decoded, when the cursor is left at `cursor`. -/
def Names (pass : Pass) (cursor : UInt32) : DecodeError → Prop
  | .readOutOfBounds address =>
      address = cursor ∧ pass.stream.byteAt? address = none ∧
        ∀ index < (address - pass.stream.cursor).toNat,
          (pass.stream.byteAt? (pass.stream.cursor + UInt32.ofNat index)).isSome = true
  | .unsupportedOpcode opcode address =>
      address = pass.stream.cursor ∧ pass.Unsupported opcode ∧ pass.transfers = []
  | .invalidModRm byte address =>
      address = cursor ∧ pass.stream.byteAt? address = some byte ∧
        byte &&& 0xC0 = 0xC0 ∧ pass.transfers = [] ∧
        ∃ run : List UInt8, pass.AtOpcode run (.oneByte 0x8D) ∧
          address = pass.stream.cursor + UInt32.ofNat (run.length + 1)
  | .instructionTooLong address => address = pass.stream.cursor

section Names

variable {pass failed : Pass} {fault : Fault}

/-- Before a missing byte, all bytes from the start of the instruction on are mapped. -/
theorem names_of_exhausted (ran : decode (pass.retraced (some #[])) = .error fault failed)
    (exhausted : Exhausted fault failed) :
    ∃ error, fault = .decode error ∧ pass.Names failed.stream.cursor error := by
  obtain ⟨isError, unmapped⟩ := exhausted
  have reaches := local_decode.reaches (pass.retraced (some #[]))
  rw [ran] at reaches
  obtain ⟨bytes, holds, stream⟩ := reaches.consumed
  have moved : failed.stream.cursor - pass.stream.cursor = UInt32.ofNat bytes.length := by
    have cursor := congrArg Stream.cursor stream
    rw [Stream.cursor_skip] at cursor
    have cursor : failed.stream.cursor = pass.stream.cursor + UInt32.ofNat bytes.length := cursor
    rw [cursor, UInt32.add_comm, UInt32.add_sub_cancel]
  refine ⟨_, isError, rfl, ?_, ?_⟩
  · exact (reaches.byteAt? failed.stream.cursor).symm.trans unmapped
  · intro index below
    rw [moved, UInt32.toNat_ofNat'] at below
    have inside : index < bytes.length := Nat.lt_of_lt_of_le below (Nat.mod_le _ _)
    have mapped := Stream.holdsAt_iff.mp holds index inside
    exact Option.isSome_iff_exists.mpr ⟨_, mapped⟩

theorem transfers_eq_nil (ran : decode (pass.retraced (some #[])) = .error fault failed)
    (still : failed.machine = (pass.retraced (some #[])).machine) : pass.transfers = [] := by
  rw [transfers, ran]
  show failed.machine.recorded = []
  rw [still]
  rfl

theorem names_of_refused {run : List UInt8} (begins : pass.BeginsWith run)
    (few : run.length ≤ 14) (silent : pass.transfers = [])
    (refused : Refused pass.stream.cursor (runSize run pass.decoder.defaultSize)
      (pass.stream.skip run.length) fault) :
    ∃ error, fault = .decode error ∧ pass.Names failed.stream.cursor error := by
  cases refused with
  | override mapped =>
      refine ⟨_, rfl, rfl, .override run few begins.prefixes ?_, silent⟩
      exact Stream.holds_append.mpr
        ⟨begins.holds, Stream.holds_cons.mpr ⟨mapped, Stream.holds_nil⟩⟩
  | opcode opcode notOverride unescaped holds refused =>
      rw [Stream.skip_skip, Stream.byteAt?_skip, Stream.cursor_skip] at refused
      exact ⟨_, rfl, rfl,
        .opcode run opcode (begins.atOpcode few notOverride unescaped holds) refused, silent⟩

theorem names_retraced (ran : decode (pass.retraced (some #[])) = .error fault failed) :
    ∃ error, fault = .decode error ∧ pass.Names failed.stream.cursor error := by
  let base := pass.retraced (some #[])
  rcases pass.exists_run 15 with ⟨run, length, prefixes, holds⟩ | ⟨run, short, begins⟩
  · have refused : decode base = _ := decode_of_long_run prefixes holds (Nat.le_of_eq length.symm)
    cases refused.symm.trans ran
    exact ⟨_, rfl, rfl⟩
  have few : run.length ≤ 14 := Nat.le_of_lt_succ short
  have baseBegins := begins.retraced (some #[])
  rcases bind_error_iff.mp ((decode_eq_halves base).symm.trans ran) with
    failure | ⟨heading, between, read, rest⟩
  · have still := (ofStream_readHeading _ _).machine_of_error failure
    rw [readHeading_of_run baseBegins few] at failure
    rcases refused_of_readBare failure with exhausted | refused
    · exact names_of_exhausted ran exhausted
    · exact names_of_refused begins few (transfers_eq_nil ran still) refused
  · have regular := regular_of_readHeading read
    rw [readHeading_of_run baseBegins few] at read
    obtain ⟨opcode, notOverride, unescaped, holds, -, selected, rfl⟩ := opcode_of_readBare read
    rcases error_of_decodeOperands regular rfl rest with
      exhausted | rfl | ⟨address, byte, ⟨mapped, register⟩, rfl, rfl⟩
    · exact names_of_exhausted ran exhausted
    · exact ⟨_, rfl, rfl⟩
    · obtain rfl := OpcodeBytes.eq_of_address selected address
      have silent := transfers_eq_nil ran (machine_begun heading _)
      have atOpcode := begins.atOpcode few notOverride unescaped holds
      have stream : ((base.skip run.length).skip 1).stream = pass.stream.skip (run.length + 1) :=
        Stream.skip_skip _ _ _
      refine ⟨_, rfl, ?_, ?_, ModRm.topBits_of_register register, silent, run, atOpcode, ?_⟩
      · exact congrArg Stream.cursor (stream_begun ..).symm
      · exact mapped
      · exact (congrArg Stream.cursor stream).trans (Stream.cursor_skip _ _)

end Names

/-- Decoding fails only with an error of the stream, which names the right place: the cursor, at
the first byte that is not mapped; the start of an instruction whose opcode is refused, or which is
too long; or the ModR/M byte, at the cursor, of an address that is taken of a register. Before an
opcode or a ModR/M byte is refused, nothing is transferred. -/
theorem decode_error_names {pass failed : Pass} {fault : Fault}
    (ran : decode pass = .error fault failed) :
    failed.machine = pass.machine.recordAll pass.transfers ∧
      ∃ error, fault = .decode error ∧ pass.Names failed.stream.cursor error := by
  have machine := pass.machine_decode
  rw [ran] at machine
  refine ⟨machine, ?_⟩
  obtain ⟨stopped, retraced, stream⟩ := error_retraced ran
  rw [stream]
  exact names_retraced retraced

/-- `lea ax, ax`. -/
theorem decode_error_names_lea :
    let pass := ofBytes #[0x66, 0x8D, 0xC0] []
    ∃ failed, decode pass = .error (.decode (.invalidModRm 0xC0 0x1002)) failed ∧
      failed.stream.cursor = 0x1002 ∧ failed.machine = pass.machine := by
  intro pass
  have refused : (outlined (decode pass)).1 = .error (.decode (.invalidModRm 0xC0 0x1002)) := by
    decide +kernel
  cases ran : decode pass with
  | ok instruction after =>
      rw [ran] at refused
      cases refused
  | error fault failed =>
      obtain ⟨machine, error, rfl, names⟩ := decode_error_names ran
      rw [ran] at refused
      cases refused
      obtain ⟨address, -, -, silent, -⟩ := names
      rw [silent, Machine.recordAll_nil] at machine
      exact ⟨failed, rfl, address.symm, machine⟩

end Pass

end I386
