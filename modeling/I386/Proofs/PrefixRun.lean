import I386.Proofs.Heading

/-!
Contract: what a run of prefixes changes.

Owns:
- reading a run of prefixes, and refusing one that is too long;
- computations that name different addresses for the same instruction;
- the heading of an instruction with a run of prefixes in front, from its heading without them;
- the outcome of decoding it, from the outcome without them.

Main statement: a run of at most fourteen prefixes changes the address, the length and the set of
prefixes of an instruction, and the default operand size that it is decoded with, but nothing else;
which bytes are in the run decides that, not their order or number.

Does not own: what the bytes after a run are decoded to.
-/

namespace I386

/-- The error with another address of the instruction. An instruction that is too long keeps its
own. -/
def DecodeError.readdressed (error : DecodeError) (start : UInt32) : DecodeError :=
  match error with
  | unsupportedOpcode opcode _ => unsupportedOpcode opcode start
  | other => other

theorem DecodeError.AtByte.readdressed {error : DecodeError} (atByte : error.AtByte)
    (start : UInt32) : error.readdressed start = error := by
  cases error with
  | readOutOfBounds address => rfl
  | invalidModRm byte address => rfl
  | unsupportedOpcode opcode address => exact atByte.elim
  | instructionTooLong address => rfl

/-! ## Sets of prefixes -/

namespace PrefixSet

/-- The prefixes of two sets. -/
def union (first second : PrefixSet) : PrefixSet :=
  ⟨first.bits ||| second.bits⟩

theorem empty_union (prefixes : PrefixSet) : empty.union prefixes = prefixes :=
  congrArg mk UInt32.zero_or

theorem insert_union (first second : PrefixSet) (member : Prefix) :
    (first.union second).insert member = (first.insert member).union second := by
  unfold insert union
  rw [UInt32.or_assoc, UInt32.or_comm second.bits, UInt32.or_assoc]

/-- A bit is in the set that bytes are added to if it was there or a byte stands for it. -/
theorem testBit_insertBytes (prefixes : PrefixSet) (run : List UInt8) (index : Nat) :
    (prefixes.insertBytes run).bits.toNat.testBit index =
      (prefixes.bits.toNat.testBit index || run.any fun byte =>
        (Prefix.ofByte? byte).any fun member => member.bit.toNat.testBit index) := by
  induction run generalizing prefixes with
  | nil => simp [insertBytes]
  | cons byte rest inductionHypothesis =>
      rw [insertBytes, inductionHypothesis, List.any_cons, ← Bool.or_assoc]
      cases Prefix.ofByte? byte with
      | none => simp
      | some member => simp [insert, Nat.testBit_or]

/-- Neither order nor number of the bytes that are added to a set count. -/
theorem insertBytes_congr {prefixes : PrefixSet} {first second : List UInt8}
    (same : ∀ byte, byte ∈ first ↔ byte ∈ second) :
    prefixes.insertBytes first = prefixes.insertBytes second := by
  refine congrArg mk (UInt32.toNat_inj.mp (Nat.eq_of_testBit_eq fun index => ?_))
  rw [testBit_insertBytes, testBit_insertBytes]
  congr 1
  rw [Bool.eq_iff_iff, List.any_eq_true, List.any_eq_true]
  exact exists_congr fun byte => and_congr_left fun _ => same byte

end PrefixSet

/-- The operand size that a run of prefixes selects: an override counts once however often it
stands there. -/
def runSize (run : List UInt8) (default : OperandSize) : OperandSize :=
  if 0x66 ∈ run then default.toggled else default

theorem runSize_congr {first second : List UInt8} (same : ∀ byte, byte ∈ first ↔ byte ∈ second)
    (default : OperandSize) : runSize first default = runSize second default := by
  simp only [runSize, same]

namespace Pass

/-! ## Reading a run -/

/-- A run of prefixes stands at the cursor, and what follows does not begin with one. -/
structure BeginsWith (pass : Pass) (run : List UInt8) : Prop where
  prefixes : ∀ byte ∈ run, byte ∈ prefixBytes
  holds : pass.stream.Holds run
  ends : ∀ byte, (pass.stream.skip run.length).byteAt? (pass.stream.skip run.length).cursor =
    some byte → byte ∉ prefixBytes

/-- A byte that is no prefix ends a run of prefixes. -/
theorem beginsWith_of_holds {pass : Pass} {run later : List UInt8} {byte : UInt8}
    (prefixes : ∀ byte ∈ run, byte ∈ prefixBytes) (other : byte ∉ prefixBytes)
    (holds : pass.stream.Holds (run ++ byte :: later)) : pass.BeginsWith run := by
  obtain ⟨runHolds, laterHolds⟩ := Stream.holds_append.mp holds
  refine ⟨prefixes, runHolds, fun next mapped => ?_⟩
  obtain rfl := Option.some.inj ((Stream.holds_cons.mp laterHolds).1.symm.trans mapped)
  exact other

theorem readPrefixes_of_some {start : UInt32} {room : Nat} {prefixes : PrefixSet} {byte : UInt8}
    {member : Prefix} (isMember : Prefix.ofByte? byte = some member) :
    readPrefixes start (room + 1) prefixes byte =
      fetchByte >>= readPrefixes start room (prefixes.insert member) := by
  rw [readPrefixes, isMember]

theorem readPrefixes_run {start : UInt32} {room : Nat} {prefixes : PrefixSet} {run : List UInt8}
    {pass : Pass} (isRun : ∀ byte ∈ run, byte ∈ prefixBytes) (holds : pass.stream.Holds run) :
    (fetchByte >>= readPrefixes start (room + run.length) prefixes) pass =
      (fetchByte >>= readPrefixes start room (prefixes.insertBytes run))
        (pass.skip run.length) := by
  induction run generalizing prefixes pass with
  | nil => rw [List.length_nil, Nat.add_zero, skip_zero, PrefixSet.insertBytes]
  | cons byte rest inductionHypothesis =>
      obtain ⟨isPrefix, restIsRun⟩ := List.forall_mem_cons.mp isRun
      obtain ⟨mapped, restHolds⟩ := Stream.holds_cons.mp holds
      have isSome := (Prefix.isSome_ofByte? byte).trans (decide_eq_true isPrefix)
      obtain ⟨member, isMember⟩ := Option.isSome_iff_exists.mp isSome
      have fetched : fetchByte pass = .ok byte (pass.skip 1) := fetchByte_ok_iff.mpr ⟨mapped, rfl⟩
      rw [bind_of_ok fetched, List.length_cons, ← Nat.add_assoc, readPrefixes_of_some isMember,
        inductionHypothesis restIsRun restHolds, skip_skip, Nat.add_comm 1,
        PrefixSet.insertBytes, isMember]
      rfl

/-- The fifteenth prefix of a run is refused. -/
theorem decode_of_long_run {pass : Pass} {run : List UInt8}
    (isRun : ∀ byte ∈ run, byte ∈ prefixBytes) (holds : pass.stream.Holds run)
    (long : 15 ≤ run.length) :
    decode pass = .error (.decode (.instructionTooLong pass.stream.cursor)) (pass.skip 15) := by
  obtain ⟨front, byte, back, rfl, length⟩ :
      ∃ (front : List UInt8) (byte : UInt8) (back : List UInt8),
        run = front ++ byte :: back ∧ front.length = 14 :=
    ⟨run.take 14, run[14], run.drop 15, by simp, by simp; omega⟩
  obtain ⟨frontIsRun, backIsRun⟩ := List.forall_mem_append.mp isRun
  obtain ⟨frontHolds, backHolds⟩ := Stream.holds_append.mp holds
  have room : maxLength - 1 = 0 + front.length := by rw [length]; rfl
  have isSome := (Prefix.isSome_ofByte? byte).trans
    (decide_eq_true (backIsRun byte List.mem_cons_self))
  obtain ⟨member, isMember⟩ := Option.isSome_iff_exists.mp isSome
  have fetched : fetchByte (pass.skip front.length) = .ok byte (pass.skip 15) := by
    refine fetchByte_ok_iff.mpr ⟨(Stream.holds_cons.mp backHolds).1, ?_⟩
    rw [length, skip_skip]
  have refused (prefixes : PrefixSet) :
      readPrefixes pass.stream.cursor 0 prefixes byte (pass.skip 15) =
        .error (.decode (.instructionTooLong pass.stream.cursor)) (pass.skip 15) := by
    rw [readPrefixes, isMember]
    rfl
  rw [decode_eq, room]
  apply bind_of_error
  rw [readPrefixes_run frontIsRun frontHolds, bind_of_ok fetched]
  exact refused _

/-! ## Computations at another address -/

/-- The outcome with another address of the instruction in its error, or a change of its value. -/
def readdressed {α β : Type} (start : UInt32) (change : α → β) :
    EStateM.Result Fault Pass α → EStateM.Result Fault Pass β
  | .ok value after => .ok (change value) after
  | .error (.decode error) failed => .error (.decode (error.readdressed start)) failed
  | .error (.violation violation) failed => .error (.violation violation) failed

/-- Two computations do the same, but the first names `start` as the address of the instruction
and changes the value. -/
def Readdresses {α β : Type} (start : UInt32) (change : α → β) (first : PassM β)
    (second : PassM α) : Prop :=
  ∀ pass, first pass = readdressed start change (second pass)

section Readdresses

variable {start : UInt32} {α β γ δ : Type}

theorem Readdresses.bind {early : α → β} {late : γ → δ} {first : PassM β} {second : PassM α}
    {next : β → PassM δ} {other : α → PassM γ} (one : Readdresses start early first second)
    (rest : ∀ value, Readdresses start late (next (early value)) (other value)) :
    Readdresses start late (first >>= next) (second >>= other) := by
  intro pass
  have same := one pass
  cases ran : second pass with
  | ok value between =>
      rw [ran] at same
      rw [bind_of_ok ran, bind_of_ok same]
      exact rest value between
  | error fault failed =>
      rw [ran] at same
      cases fault with
      | decode error => rw [bind_of_error ran, bind_of_error same, readdressed]
      | violation violation => rw [bind_of_error ran, bind_of_error same, readdressed]

theorem Readdresses.ite {change : α → β} {condition : Prop} [Decidable condition]
    {yes no : PassM β} {otherYes otherNo : PassM α} (ofYes : Readdresses start change yes otherYes)
    (ofNo : Readdresses start change no otherNo) :
    Readdresses start change (if condition then yes else no)
      (if condition then otherYes else otherNo) := by
  by_cases holds : condition
  · rwa [if_pos holds, if_pos holds]
  · rwa [if_neg holds, if_neg holds]

theorem readdresses_pure {change : α → β} (value : α) :
    Readdresses start change (pure (change value)) (pure value) :=
  fun _ => rfl

theorem readdresses_unsupported {change : α → β} (opcode : UInt16) (address : UInt32) :
    Readdresses start change (refuse (.unsupportedOpcode opcode start))
      (refuse (.unsupportedOpcode opcode address)) :=
  fun _ => rfl

theorem readdresses_fetchByte : Readdresses start id fetchByte fetchByte := by
  intro pass
  cases mapped : pass.stream.byteAt? pass.stream.cursor with
  | none =>
      rw [fetchByte_of_unmapped pass mapped]
      rfl
  | some byte =>
      have fetched : fetchByte pass = .ok byte (pass.skip 1) := fetchByte_ok_iff.mpr ⟨mapped, rfl⟩
      rw [fetched]
      rfl

theorem readdresses_peekByte : Readdresses start id peekByte peekByte := by
  intro pass
  cases mapped : pass.stream.byteAt? pass.stream.cursor with
  | none =>
      rw [peekByte_of_unmapped pass mapped]
      rfl
  | some byte =>
      have peeked : peekByte pass = .ok byte pass := peekByte_ok_iff.mpr ⟨mapped, rfl⟩
      rw [peeked]
      rfl

theorem readdresses_readOpcode (byte : UInt8) :
    Readdresses start id (readOpcode byte) (readOpcode byte) :=
  .ite (readdresses_fetchByte.bind fun _ => readdresses_pure _) (readdresses_pure _)

theorem readdresses_select (address : UInt32) (size : OperandSize) (opcode : Opcode) :
    Readdresses start id (select start size opcode) (select address size opcode) := by
  have chosen : Readdresses start id (select? opcode.row) (select? opcode.row) := by
    cases opcode.row with
    | unassigned => exact readdresses_pure _
    | instruction mnemonic form => exact readdresses_pure _
    | group group form => exact readdresses_peekByte.bind fun _ => readdresses_pure _
  apply chosen.bind
  intro found
  cases found with
  | none => exact readdresses_unsupported _ _
  | some selection => exact .ite (readdresses_unsupported _ _) (readdresses_pure _)

end Readdresses

end Pass

/-! ## Headings -/

/-- The heading with prefixes added. -/
def Heading.prefixed (heading : Heading) (prefixes : PrefixSet) : Heading :=
  { heading with prefixes := heading.prefixes.union prefixes }

/-- The instruction with prefixes added, in a run of `count` of them at `start`. -/
def Instruction.prefixed (instruction : Instruction) (start : UInt32) (count : Nat)
    (prefixes : PrefixSet) : Instruction :=
  { instruction with
    address := start
    size := instruction.size + UInt32.ofNat count
    prefixes := instruction.prefixes.union prefixes }

theorem Heading.instruction_prefixed (heading : Heading) (prefixes : PrefixSet)
    (start other length : UInt32) (count : Nat) (decoder : Decoder) :
    (heading.prefixed prefixes).instruction start (length + UInt32.ofNat count) decoder =
      (heading.instruction other length decoder).prefixed start count prefixes := by
  unfold instruction prefixed Instruction.prefixed
  by_cases escaped : heading.first = escapeByte
  · simp only [if_pos escaped, PrefixSet.insert_union]
  · simp only [if_neg escaped]

namespace Pass

/-- Read the heading of an instruction after its prefixes. -/
def readBare (start : UInt32) (size : OperandSize) (prefixes : PrefixSet) : PassM Heading := do
  let byte ← fetchByte
  if byte = addressSizeOverride then
    refuse (.unsupportedOpcode byte.toUInt16 start)
  else
    readOperation start size prefixes byte

theorem ofStream_readBare (start : UInt32) (size : OperandSize) (prefixes : PrefixSet) :
    OfStream (readBare start size prefixes) :=
  ofStream_fetchByte.bind fun byte => .ite (.refuse _) (ofStream_readOperation _ _ _ byte)

theorem readdresses_readBare (start address : UInt32) (size : OperandSize)
    (prefixes : PrefixSet) :
    Readdresses start (·.prefixed prefixes) (readBare start size prefixes)
      (readBare address size .empty) := by
  apply readdresses_fetchByte.bind
  intro byte
  apply Readdresses.ite (readdresses_unsupported _ _)
  apply (readdresses_readOpcode byte).bind
  intro opcode
  apply (readdresses_select address size opcode).bind
  intro selection
  have added : (Heading.mk .empty byte size opcode selection).prefixed prefixes =
      ⟨prefixes, byte, size, opcode, selection⟩ := by
    unfold Heading.prefixed
    rw [PrefixSet.empty_union]
  exact added ▸ readdresses_pure _

/-- The heading after a run of prefixes that is not too long. -/
theorem readHeading_of_run {pass : Pass} {run : List UInt8} (begins : pass.BeginsWith run)
    (short : run.length ≤ 14) (start : UInt32) (default : OperandSize) :
    readHeading start default pass =
      readBare start (runSize run default) (PrefixSet.empty.insertBytes run)
        (pass.skip run.length) := by
  obtain ⟨isRun, holds, ends⟩ := begins
  have room : maxLength - 1 = (14 - run.length) + run.length := by
    rw [Nat.sub_add_cancel short]
    rfl
  have size : effectiveSize (PrefixSet.empty.insertBytes run) default = runSize run default :=
    effectiveSize_eq run default
  unfold readHeading
  rw [room, bind_of_eq (readPrefixes_run isRun holds)]
  cases mapped : (pass.stream.skip run.length).byteAt? (pass.stream.skip run.length).cursor with
  | none =>
      have missing := fetchByte_of_unmapped (pass.skip run.length) mapped
      exact (bind_of_error (bind_of_error missing)).trans (bind_of_error missing).symm
  | some byte =>
      have isNone := Prefix.ofByte?_eq_none_iff.mpr (ends byte mapped)
      have fetched : fetchByte (pass.skip run.length) = .ok byte ((pass.skip run.length).skip 1) :=
        fetchByte_ok_iff.mpr ⟨mapped, rfl⟩
      have last : readPrefixes start (14 - run.length) (PrefixSet.empty.insertBytes run) byte =
          if byte = addressSizeOverride then refuse (.unsupportedOpcode byte.toUInt16 start)
          else pure (PrefixSet.empty.insertBytes run, byte) := by
        rw [readPrefixes, isNone]
      rw [readBare, bind_of_ok fetched]
      refine (bind_of_eq ((bind_of_ok fetched).trans (congrFun last _))).trans ?_
      by_cases isOverride : byte = addressSizeOverride
      · rw [if_pos isOverride, if_pos isOverride]
        rfl
      · rw [if_neg isOverride, if_neg isOverride, pure_bind, size]

/-! ## Lengths -/

theorem skip_of_readBare {start : UInt32} {size : OperandSize} {prefixes : PrefixSet}
    {heading : Heading} {pass after : Pass}
    (ran : readBare start size prefixes pass = .ok heading after) :
    ∃ count ≤ 2, after = pass.skip count := by
  obtain ⟨byte, _, fetched, rest⟩ := bind_ok_iff.mp ran
  obtain ⟨-, rfl⟩ := fetchByte_ok_iff.mp fetched
  by_cases isOverride : byte = addressSizeOverride
  · rw [if_pos isOverride] at rest
    cases rest
  · rw [if_neg isOverride] at rest
    simp only [readOperation, bind_ok_iff, readOpcode_ok_iff, select_ok_iff, pure_ok_iff] at rest
    obtain ⟨_, _, ⟨opcode, -, -, -, -, rfl⟩, _, _, ⟨-, -, -, rfl⟩, -, rfl⟩ := rest
    refine ⟨1 + opcode.rest.length, ?_, skip_skip _ _ _⟩
    cases opcode <;> simp [OpcodeBytes.rest]

theorem stream_of_steps {heading : Heading} (regular : heading.selection.Regular)
    {pass decoded : Pass}
    (ran : Step.runAll heading.selection.steps (heading.begun pass) = .ok () decoded) :
    ∃ count ≤ 10, decoded.stream = pass.stream.skip count := by
  obtain ⟨operands, takes, -, rfl⟩ := (runAll_begun_ok_iff regular).mp ran
  refine ⟨operands.bytes.length, Selection.length_bytes_le_of_regular regular takes, ?_⟩
  rw [Step.stream_effectAll, stream_begun,
    Selection.taken_eq regular takes.addressing takes.immediate]

/-- Without prefixes, no instruction is longer than twelve bytes. -/
theorem length_le_of_steps {heading : Heading} (regular : heading.selection.Regular)
    {origin : UInt32} {pass decoded : Pass}
    (near : ∃ early ≤ 2, pass.stream.cursor = origin + UInt32.ofNat early)
    (ran : Step.runAll heading.selection.steps (heading.begun pass) = .ok () decoded) :
    (decoded.stream.cursor - origin).toNat ≤ 12 := by
  obtain ⟨early, fewEarly, cursor⟩ := near
  obtain ⟨late, fewLate, stream⟩ := stream_of_steps regular ran
  have passed : decoded.stream.cursor - origin = UInt32.ofNat early + UInt32.ofNat late := by
    rw [stream, Stream.cursor_skip, cursor]
    grind
  rw [passed, UInt32.toNat_add, UInt32.toNat_ofNat', UInt32.toNat_ofNat']
  omega

/-! ## Decoding after a run -/

/-- The pass with another default operand size. -/
def resized (pass : Pass) (size : OperandSize) : Pass :=
  { pass with decoder := { pass.decoder with defaultSize := size } }

theorem reframed_of_recorded (pass : Pass) {machine : Machine} {ops : List MicroOp}
    (recorded : pass.machine = machine.recordAll ops) (size : OperandSize) :
    pass.reframed (machine.trace.map (· ++ ops.toArray)) size = pass.resized size := by
  unfold reframed resized
  rw [recorded]
  rfl

/-- How the outcome of decoding an instruction changes with a run of `count` prefixes in front of
it, the first of them at `start`. -/
inductive Preceded (start : UInt32) (count : Nat) (prefixes : PrefixSet) (size : OperandSize) :
    EStateM.Result Fault Pass Instruction → EStateM.Result Fault Pass Instruction → Prop where
  | ok (instruction : Instruction) (after : Pass) (fits : instruction.size.toNat + count ≤ 15)
      (length : (instruction.prefixed start count prefixes).size.toNat =
        instruction.size.toNat + count)
      (next : (instruction.prefixed start count prefixes).nextAddress = instruction.nextAddress) :
      Preceded start count prefixes size (.ok instruction after)
        (.ok (instruction.prefixed start count prefixes) (after.resized size))
  | tooLong (instruction : Instruction) (after : Pass)
      (long : 15 < instruction.size.toNat + count) :
      Preceded start count prefixes size (.ok instruction after)
        (.error (.decode (.instructionTooLong start)) (after.resized size))
  | error (error : DecodeError) (failed : Pass) (left : Decoder) :
      Preceded start count prefixes size (.error (.decode error) failed)
        (.error (.decode (error.readdressed start)) { failed with decoder := left })

section Preceded

variable {heading : Heading} {start origin : UInt32} {count : Nat}

/-- What is left to do when the operands are decoded. An instruction without prefixes is never too
long. -/
theorem preceded_concluded (prefixes : PrefixSet) (size : OperandSize) {decoded : Pass}
    (behind : origin = start + UInt32.ofNat count) (few : count ≤ 14)
    (short : (decoded.stream.cursor - origin).toNat ≤ 12) :
    Preceded start count prefixes size (heading.concluded origin decoded)
      (mapPass (·.resized size) ((heading.prefixed prefixes).concluded start decoded)) := by
  have length : decoded.stream.cursor - start =
      decoded.stream.cursor - origin + UInt32.ofNat count := by
    rw [behind]
    grind
  have toNat : (decoded.stream.cursor - start).toNat =
      (decoded.stream.cursor - origin).toNat + count := by
    rw [length, UInt32.toNat_add, UInt32.toNat_ofNat']
    omega
  let instruction := heading.instruction origin (decoded.stream.cursor - origin) decoded.decoder
  have bare : heading.concluded origin decoded = .ok instruction decoded.finished :=
    if_pos (Nat.le_trans short (by decide))
  have prefixed := heading.instruction_prefixed prefixes start origin
    (decoded.stream.cursor - origin) count decoded.decoder
  rw [bare]
  unfold Heading.concluded
  rw [toNat, length, prefixed]
  by_cases fits : (decoded.stream.cursor - origin).toNat + count ≤ maxLength
  · rw [if_pos fits]
    refine .ok instruction decoded.finished fits ?_ ?_
    · show (decoded.stream.cursor - origin + UInt32.ofNat count).toNat = _
      rw [← length]
      exact toNat
    · show start + (decoded.stream.cursor - origin + UInt32.ofNat count) =
        origin + (decoded.stream.cursor - origin)
      rw [behind]
      grind
  · rw [if_neg fits]
    exact .tooLong instruction decoded.finished (Nat.lt_of_not_le fits)

/-- Decoding the operands of a heading, with another decoder before and prefixes added. -/
theorem preceded_operands (regular : heading.selection.Regular) (prefixes : PrefixSet)
    {pass : Pass} (behind : origin = start + UInt32.ofNat count) (few : count ≤ 14)
    (near : ∃ early ≤ 2, pass.stream.cursor = origin + UInt32.ofNat early) (other : Decoder) :
    Preceded start count prefixes other.defaultSize (decodeOperands origin heading pass)
      (decodeOperands start (heading.prefixed prefixes) { pass with decoder := other }) := by
  obtain ⟨ops, conduct⟩ := exists_conduct_steps regular pass
  have steps : Step.runAll (heading.prefixed prefixes).selection.steps
      ((heading.prefixed prefixes).begun { pass with decoder := other }) =
        mapPass (·.reframed (pass.machine.trace.map (· ++ ops.toArray)) other.defaultSize)
          (Step.runAll heading.selection.steps (heading.begun pass)) :=
    conduct.steps_frame pass.machine.trace other
  have recorded := conduct.recorded
  rw [machine_begun] at recorded
  cases outcome : Step.runAll heading.selection.steps (heading.begun pass) with
  | error fault failed =>
      obtain ⟨error, rfl, atByte⟩ := conduct.obeys fault failed outcome
      rw [outcome] at steps recorded
      have still := reframed_of_recorded failed recorded other.defaultSize
      have same : decodeOperands start (heading.prefixed prefixes) { pass with decoder := other } =
          .error (.decode (error.readdressed start))
            { failed with decoder := (failed.resized other.defaultSize).decoder } := by
        rw [atByte.readdressed]
        exact (decodeOperands_of_error start steps).trans (congrArg _ still)
      rw [decodeOperands_of_error origin outcome, same]
      exact .error error failed _
  | ok value decoded =>
      rw [outcome] at steps recorded
      have short := length_le_of_steps regular near outcome
      have still : mapPass
          (·.reframed (pass.machine.trace.map (· ++ ops.toArray)) other.defaultSize)
          ((heading.prefixed prefixes).concluded start decoded) =
            mapPass (·.resized other.defaultSize)
              ((heading.prefixed prefixes).concluded start decoded) := by
        apply mapPass_congr
        rw [left_concluded]
        exact reframed_of_recorded decoded.finished recorded _
      rw [decodeOperands_of_ok origin outcome, decodeOperands_of_ok start steps,
        concluded_reframed, still]
      exact preceded_concluded prefixes other.defaultSize behind few short

end Preceded

/-- The pass at the end of a run of prefixes, with another decoder. -/
def behind (pass : Pass) (run : List UInt8) (decoder : Decoder) : Pass :=
  ⟨pass.stream.skip run.length, pass.machine, decoder⟩

theorem BeginsWith.behind {pass : Pass} {run : List UInt8} (begins : pass.BeginsWith run)
    (decoder : Decoder) : (pass.behind run decoder).BeginsWith [] where
  prefixes := by simp
  holds := Stream.holds_nil
  ends := by
    intro byte mapped
    rw [List.length_nil, Stream.skip_zero] at mapped
    exact begins.ends byte mapped

/-- Decoding an instruction after a run of prefixes, from decoding it without them at the operand
size that the run selects. -/
theorem preceded_decode {pass : Pass} {run : List UInt8} (begins : pass.BeginsWith run)
    (short : run.length ≤ 14) (decoder : Decoder)
    (size : decoder.defaultSize = runSize run pass.decoder.defaultSize) :
    Preceded pass.stream.cursor run.length (PrefixSet.empty.insertBytes run)
      pass.decoder.defaultSize (decode (pass.behind run decoder)) (decode pass) := by
  let start := pass.stream.cursor
  let prefixes := PrefixSet.empty.insertBytes run
  let bare := pass.behind run decoder
  -- Only the stream takes part in reading a heading, so one look at it serves both passes.
  obtain ⟨result, after, ran⟩ :=
    ofStream_readBare bare.stream.cursor bare.decoder.defaultSize .empty bare.stream
  have bareReads : readHeading bare.stream.cursor bare.decoder.defaultSize bare =
      settled result ⟨after, pass.machine, decoder⟩ := by
    rw [readHeading_of_run (begins.behind decoder) (Nat.zero_le _), List.length_nil, skip_zero]
    exact ran pass.machine decoder
  have reads : readHeading start pass.decoder.defaultSize pass =
      readdressed start (·.prefixed prefixes)
        (settled result ⟨after, pass.machine, pass.decoder⟩) := by
    rw [readHeading_of_run begins short, ← size, ← ran]
    exact readdresses_readBare start _ _ _ _
  rw [show decode bare = _ from decode_eq_halves bare, decode_eq_halves pass]
  cases result with
  | error error =>
      rw [bind_of_error bareReads, bind_of_error reads]
      exact .error error _ pass.decoder
  | ok heading =>
      obtain ⟨early, few, moved⟩ := skip_of_readBare (ran pass.machine decoder)
      have near : after.cursor = bare.stream.cursor + UInt32.ofNat early :=
        congrArg (·.stream.cursor) moved
      rw [bind_of_ok bareReads, bind_of_ok reads]
      exact preceded_operands (regular_of_readHeading bareReads) prefixes
        (Stream.cursor_skip _ _) short ⟨early, few, near⟩ pass.decoder

/-! ## Runs of the same prefixes -/

theorem size_pos_of_decode_ok {pass after : Pass} {instruction : Instruction}
    (ran : decode pass = .ok instruction after) : 1 ≤ instruction.size.toNat := by
  obtain ⟨encoding, selection, valid, rfl, -⟩ := decode_ok_iff.mp ran
  obtain ⟨-, remains, short⟩ := encodes_iff.mp valid
  have length := encoding.length_bytes
  have few : encoding.prefixes.length ≤ 14 := by omega
  have same : (pass.instruction encoding selection).size.toNat = encoding.bytes.length :=
    toNat_length few remains.takes
  omega

/-- Runs in which the same prefixes stand, in whatever order and number, in front of the same
bytes give the same instruction but for its address and length. -/
theorem decode_of_same_members {pass other after : Pass} {run others : List UInt8}
    {instruction : Instruction} (begins : pass.BeginsWith run)
    (otherBegins : other.BeginsWith others)
    (members : ∀ byte, byte ∈ others ↔ byte ∈ run) (machine : other.machine = pass.machine)
    (size : other.decoder.defaultSize = pass.decoder.defaultSize)
    (cursor : (other.stream.skip others.length).cursor = (pass.stream.skip run.length).cursor)
    (ran : decode pass = .ok instruction after)
    (sameBytes : ∀ index, index + run.length < instruction.size.toNat →
      other.stream.byteAt? ((pass.stream.skip run.length).cursor + UInt32.ofNat index) =
        pass.stream.byteAt? ((pass.stream.skip run.length).cursor + UInt32.ofNat index))
    (fits : instruction.size.toNat + others.length ≤ 15 + run.length) :
    ∃ reached, decode other = .ok { instruction with
        address := other.stream.cursor
        size := instruction.size - UInt32.ofNat run.length + UInt32.ofNat others.length } reached ∧
      reached.machine = after.machine ∧ reached.stream.cursor = after.stream.cursor := by
  have short : run.length ≤ 14 := by
    refine Nat.le_of_not_lt fun long => ?_
    cases ran.symm.trans (decode_of_long_run begins.prefixes begins.holds long)
  let decoder : Decoder :=
    { pass.decoder with defaultSize := runSize run pass.decoder.defaultSize }
  have preceded := preceded_decode begins short decoder rfl
  generalize bareRan : decode (pass.behind run decoder) = outcome at preceded
  rw [ran] at preceded
  cases preceded with
  | ok bare reached _ length next =>
      obtain ⟨-, -, address, -⟩ := exists_span_of_decode_ok bareRan
      have positive := size_pos_of_decode_ok bareRan
      have otherShort : others.length ≤ 14 := by omega
      -- Without prefixes both passes decode the same bytes, from the same address.
      have bareBytes : ∀ index < bare.size.toNat,
          (other.stream.skip others.length).byteAt? (bare.address + UInt32.ofNat index) =
            (pass.stream.skip run.length).byteAt? (bare.address + UInt32.ofNat index) := by
        intro index below
        rw [address]
        exact sameBytes index (by omega)
      have otherRan : decode (other.behind others decoder) = .ok bare
          { reached with
            stream := (other.stream.skip others.length).seek reached.stream.cursor } := by
        rw [behind, machine]
        exact decode_of_same_bytes bareRan cursor bareBytes
      have otherSize : decoder.defaultSize = runSize others other.decoder.defaultSize := by
        rw [size, runSize_congr members]
      have otherPreceded := preceded_decode otherBegins otherShort decoder otherSize
      rw [otherRan] at otherPreceded
      generalize decode other = last at otherPreceded
      cases otherPreceded with
      | ok _ _ _ _ _ =>
          refine ⟨_, congrArg (EStateM.Result.ok · _) ?_, rfl, rfl⟩
          unfold Instruction.prefixed
          rw [PrefixSet.insertBytes_congr members, UInt32.add_sub_cancel]
      | tooLong _ _ long => omega

/-- Fifteen prefixes are refused. Up to fourteen, the instruction after them is decoded as it would
be alone at the operand size that they select, with the address of the first prefix, their number
added to its length and them added to its prefixes, unless that makes it too long; an error is
the same but for the address of the instruction. Neither order nor number of the prefixes count
for anything but the address and the length. -/
theorem decode_prefixed {pass : Pass} {run : List UInt8} (begins : pass.BeginsWith run) :
    (15 ≤ run.length →
      decode pass =
        .error (.decode (.instructionTooLong pass.stream.cursor)) (pass.skip 15)) ∧
    (run.length ≤ 14 →
      ∀ decoder : Decoder, decoder.defaultSize = runSize run pass.decoder.defaultSize →
        Preceded pass.stream.cursor run.length (PrefixSet.empty.insertBytes run)
          pass.decoder.defaultSize (decode (pass.behind run decoder)) (decode pass)) ∧
    ∀ (other : Pass) (others : List UInt8), other.BeginsWith others →
      (∀ byte, byte ∈ others ↔ byte ∈ run) → other.machine = pass.machine →
      other.decoder.defaultSize = pass.decoder.defaultSize →
      (other.stream.skip others.length).cursor = (pass.stream.skip run.length).cursor →
      ∀ (instruction : Instruction) (after : Pass), decode pass = .ok instruction after →
        (∀ index, index + run.length < instruction.size.toNat →
          other.stream.byteAt? ((pass.stream.skip run.length).cursor + UInt32.ofNat index) =
            pass.stream.byteAt? ((pass.stream.skip run.length).cursor + UInt32.ofNat index)) →
        instruction.size.toNat + others.length ≤ 15 + run.length →
        ∃ reached, decode other = .ok { instruction with
            address := other.stream.cursor
            size := instruction.size - UInt32.ofNat run.length + UInt32.ofNat others.length }
              reached ∧
          reached.machine = after.machine ∧ reached.stream.cursor = after.stream.cursor := by
  refine ⟨decode_of_long_run begins.prefixes begins.holds, ?_, ?_⟩
  · intro short decoder size
    exact preceded_decode begins short decoder size
  · intro other others otherBegins members machine size cursor instruction after ran sameBytes fits
    exact decode_of_same_members begins otherBegins members machine size cursor ran sameBytes fits

/-- `imul ax, word ptr [ebx + 4], -2`, alone at an operand size of 16 bits, after an override, and
after the same override twice. -/
theorem decode_prefixed_imul :
    let pass := ofBytes #[0x66, 0x6B, 0x43, 0x04, 0xFE] []
    let other : Pass :=
      { pass with stream := .mapped #[0x66, 0x66, 0x6B, 0x43, 0x04, 0xFE] 0xFFF }
    pass.BeginsWith [0x66] ∧
      Preceded 0x1000 1 (PrefixSet.empty.insertBytes [0x66]) .bits32
        (decode (pass.behind [0x66] (.ofSize .bits16))) (decode pass) ∧
      ∃ (instruction : Instruction) (after reached : Pass),
        decode pass = .ok instruction after ∧
          decode other = .ok { instruction with
            address := 0xFFF
            size := instruction.size - UInt32.ofNat 1 + UInt32.ofNat 2 } reached ∧
          reached.machine = after.machine := by
  intro pass other
  have begins : pass.BeginsWith [0x66] := by
    have next : (pass.stream.skip 1).byteAt? (pass.stream.skip 1).cursor = some 0x6B := by
      decide +kernel
    refine ⟨by decide +kernel, ⟨by decide +kernel, trivial⟩, ?_⟩
    intro byte mapped
    obtain rfl := Option.some.inj (next.symm.trans mapped)
    decide
  have otherBegins : other.BeginsWith [0x66, 0x66] := by
    have next : (other.stream.skip 2).byteAt? (other.stream.skip 2).cursor = some 0x6B := by
      decide +kernel
    refine ⟨by decide +kernel, ⟨by decide +kernel, by decide +kernel, trivial⟩, ?_⟩
    intro byte mapped
    obtain rfl := Option.some.inj (next.symm.trans mapped)
    decide
  have size : (pass.instruction imulEncoding imulSelection).size.toNat = 5 := by decide +kernel
  have sameBytes : ∀ index < 4,
      other.stream.byteAt? ((pass.stream.skip 1).cursor + UInt32.ofNat index) =
        pass.stream.byteAt? ((pass.stream.skip 1).cursor + UInt32.ofNat index) := by
    decide +kernel
  obtain ⟨-, alone, again⟩ := decode_prefixed begins
  obtain ⟨reached, ran, machine, -⟩ := again other [0x66, 0x66] otherBegins (by simp) rfl rfl rfl
    _ _ decode_imul
    (fun index inside => sameBytes index (Nat.lt_of_succ_lt_succ (Nat.lt_of_lt_of_eq inside size)))
    (by rw [size]; decide)
  exact ⟨begins, alone (by decide) (.ofSize .bits16) rfl, _, _, reached, decode_imul, ran, machine⟩

end Pass

end I386
