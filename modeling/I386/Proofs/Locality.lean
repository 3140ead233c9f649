import I386.Proofs.Acceptance
import I386.Proofs.Composition

/-!
Contract: decoding looks at nothing but the bytes that it consumes.

Owns:
- streams that map at least what another one maps, and streams whose mapping is cut off;
- local computations: what one does on a stream settles what it does on every stream that maps
  more, unless it fails for want of a byte;
- every part of decoding is local.

Main statement: an instruction is decoded from its own bytes alone, whatever surrounds them, and
from no fewer of them: decoding a stream that is cut off within an instruction fails at the cut.

Does not own: which bytes form an instruction.
-/

namespace I386

/-! ## Mappings -/

namespace Stream

/-- The larger stream maps every byte of the smaller one at the same address. -/
def Within (small larger : Stream) : Prop :=
  ∀ (address : UInt32) (byte : UInt8),
    small.byteAt? address = some byte → larger.byteAt? address = some byte

/-- The stream with its mapping cut off before an address. -/
def truncated (stream : Stream) (address : UInt32) : Stream :=
  { stream with bytes := stream.bytes.take (stream.offset address) }

theorem byteAt?_truncated (stream : Stream) (cut address : UInt32) :
    (stream.truncated cut).byteAt? address =
      if stream.offset address < stream.offset cut then stream.byteAt? address else none := by
  show (stream.bytes.take (stream.offset cut))[stream.offset address]? = _
  rw [Array.take_eq_extract, Array.getElem?_extract, Nat.sub_zero, Nat.zero_add]
  by_cases before : stream.offset address < stream.offset cut
  · rw [if_pos before]
    by_cases inside : stream.offset address < stream.bytes.size
    · rw [if_pos (Nat.lt_min.mpr ⟨before, inside⟩)]
      rfl
    · rw [if_neg fun least => inside (Nat.lt_min.mp least).2]
      exact (Array.getElem?_eq_none (Nat.le_of_not_lt inside)).symm
  · rw [if_neg before, if_neg fun least => before (Nat.lt_min.mp least).1]

theorem within_truncated (stream : Stream) (cut : UInt32) :
    (stream.truncated cut).Within stream := by
  intro address byte mapped
  rw [byteAt?_truncated] at mapped
  by_cases before : stream.offset address < stream.offset cut
  · rwa [if_pos before] at mapped
  · rw [if_neg before] at mapped
    cases mapped

/-- The mapping of a short run of bytes maps that run. -/
theorem holds_mapped {bytes : List UInt8} (short : bytes.length < UInt32.size) (address : UInt32) :
    (mapped bytes.toArray address).Holds bytes := by
  apply holdsAt_iff.mpr
  intro index below
  have offset : (address + UInt32.ofNat index - address).toNat = index := by
    rw [UInt32.add_comm, UInt32.add_sub_cancel, UInt32.toNat_ofNat']
    exact Nat.mod_eq_of_lt (Nat.lt_trans below short)
  show bytes.toArray[(address + UInt32.ofNat index - address).toNat]? = some bytes[index]
  rw [offset]
  simp [below]

/-- The mapping of a run of bytes maps nothing else. -/
theorem within_of_holdsAt {stream : Stream} {address : UInt32} {bytes : List UInt8}
    (holds : stream.HoldsAt address bytes) : (mapped bytes.toArray address).Within stream := by
  intro other byte isMapped
  have found : bytes[(other - address).toNat]? = some byte := by
    rw [← List.getElem?_toArray]
    exact isMapped
  obtain ⟨below, rfl⟩ := List.getElem?_eq_some_iff.mp found
  have reached := holdsAt_iff.mp holds _ below
  rwa [UInt32.ofNat_toNat, UInt32.add_comm, UInt32.sub_add_cancel] at reached

/-- Mapped bytes that follow each other stand one after the other in the mapping, which is too
short to begin again from its base. -/
theorem offset_add {stream : Stream} {address : UInt32} {count : Nat}
    (bounded : stream.bytes.size < UInt32.size)
    (isMapped : ∀ index < count, (stream.byteAt? (address + UInt32.ofNat index)).isSome = true) :
    stream.offset (address + UInt32.ofNat count) = stream.offset address + count := by
  induction count with
  | zero => simp
  | succ count inductionHypothesis =>
      have before := inductionHypothesis fun index below =>
        isMapped index (Nat.lt_succ_of_lt below)
      have last : stream.offset (address + UInt32.ofNat count) < stream.bytes.size := by
        have isSome := isMapped count (Nat.lt_succ_self count)
        unfold byteAt? at isSome
        simpa using isSome
      have next : address + UInt32.ofNat (count + 1) - stream.base =
          address + UInt32.ofNat count - stream.base + 1 := by
        rw [UInt32.ofNat_add, ← UInt32.add_assoc, UInt32.sub_eq_add_neg, UInt32.sub_eq_add_neg,
          UInt32.add_assoc, UInt32.add_assoc (address + UInt32.ofNat count),
          UInt32.add_comm (UInt32.ofNat 1)]
        rfl
      unfold offset at before last ⊢
      rw [next, UInt32.toNat_add, before]
      rw [before] at last
      have one : (1 : UInt32).toNat = 1 := rfl
      have size : UInt32.size = 2 ^ 32 := rfl
      omega

/-- Where a run ends for want of a byte in a stream that is cut off within mapped bytes. -/
theorem length_of_truncated {stream : Stream} {address : UInt32} {bytes run : List UInt8}
    {count : Nat} (bounded : stream.bytes.size < UInt32.size) (holds : stream.HoldsAt address bytes)
    (inside : count < bytes.length)
    (runHolds : (stream.truncated (address + UInt32.ofNat count)).HoldsAt address run)
    (missing : (stream.truncated (address + UInt32.ofNat count)).byteAt?
      (address + UInt32.ofNat run.length) = none) :
    run.length = count := by
  have offset (index : Nat) (atMost : index ≤ bytes.length) :
      stream.offset (address + UInt32.ofNat index) = stream.offset address + index := by
    apply offset_add bounded
    intro earlier below
    rw [holdsAt_iff.mp holds earlier (Nat.lt_of_lt_of_le below atMost)]
    rfl
  rcases Nat.lt_trichotomy run.length count with short | same | long
  · have mapped := holdsAt_iff.mp holds run.length (Nat.lt_trans short inside)
    rw [byteAt?_truncated, if_pos, mapped] at missing
    · cases missing
    · rw [offset _ (Nat.le_of_lt inside), offset _ (Nat.le_of_lt (Nat.lt_trans short inside))]
      omega
  · exact same
  · have mapped := holdsAt_iff.mp runHolds count long
    rw [byteAt?_truncated, if_neg (Nat.lt_irrefl _)] at mapped
    cases mapped

end Stream

namespace Pass

/-! ## Local computations -/

/-- The pass over another mapping, with its cursor at the same address. -/
def remapped (pass : Pass) (stream : Stream) : Pass :=
  { pass with stream := stream.seek pass.stream.cursor }

/-- From one pass to another, mapped bytes were consumed and transfers recorded. -/
structure Reaches (before after : Pass) : Prop where
  consumed : ∃ bytes, before.stream.Holds bytes ∧ after.stream = before.stream.skip bytes.length
  recorded : ∃ ops, after.machine = before.machine.recordAll ops

theorem Reaches.refl (pass : Pass) : pass.Reaches pass :=
  ⟨⟨[], Stream.holds_nil, pass.stream.skip_zero.symm⟩, ⟨[], pass.machine.recordAll_nil.symm⟩⟩

theorem Reaches.trans {first second third : Pass} (one : first.Reaches second)
    (two : second.Reaches third) : first.Reaches third := by
  obtain ⟨⟨front, frontHolds, frontStream⟩, ⟨frontOps, frontMachine⟩⟩ := one
  obtain ⟨⟨back, backHolds, backStream⟩, ⟨backOps, backMachine⟩⟩ := two
  rw [frontStream] at backHolds backStream
  rw [frontMachine, Machine.recordAll_recordAll] at backMachine
  refine ⟨⟨front ++ back, Stream.holds_append.mpr ⟨frontHolds, backHolds⟩, ?_⟩, ⟨_, backMachine⟩⟩
  rw [backStream, Stream.skip_skip, List.length_append]

theorem Reaches.byteAt? {before after : Pass} (reaches : before.Reaches after)
    (address : UInt32) : after.stream.byteAt? address = before.stream.byteAt? address := by
  obtain ⟨⟨bytes, -, stream⟩, -⟩ := reaches
  rw [stream, Stream.byteAt?_skip]

theorem Reaches.within {before after : Pass} (reaches : before.Reaches after) {larger : Stream}
    (within : before.stream.Within larger) : after.stream.Within larger := by
  intro address byte mapped
  rw [reaches.byteAt?] at mapped
  exact within address byte mapped

/-- One outcome settles another, over a stream that maps more: it is the same one, or the first
computation wanted a byte at its cursor, where only the other stream maps one, and the other went
on from there. -/
inductive Settles {α : Type} (larger : Stream) :
    EStateM.Result Fault Pass α → EStateM.Result Fault Pass α → Prop where
  | ok (value : α) (after : Pass) :
      Settles larger (.ok value after) (.ok value (after.remapped larger))
  | error (fault : Fault) (failed : Pass) :
      Settles larger (.error fault failed) (.error fault (failed.remapped larger))
  | exhausted (failed : Pass) (outcome : EStateM.Result Fault Pass α) (ops : List MicroOp)
      (unmapped : failed.stream.byteAt? failed.stream.cursor = none)
      (beyond : larger.byteAt? failed.stream.cursor ≠ none)
      (recorded : (left outcome).machine = failed.machine.recordAll ops) :
      Settles larger (.error (.decode (.readOutOfBounds failed.stream.cursor)) failed) outcome

/-- A computation that only moves the cursor over mapped bytes, records transfers and changes the
decoder, and whose outcome depends on no byte that it does not find mapped. -/
structure Local {α : Type} (action : PassM α) : Prop where
  reaches (pass : Pass) : pass.Reaches (left (action pass))
  settles (pass : Pass) (larger : Stream) (within : pass.stream.Within larger) :
    Settles larger (action pass) (action (pass.remapped larger))

section Local

variable {α β : Type}

/-- What succeeds on a stream succeeds on one that maps more, and changes the same. -/
theorem Local.ok_remapped {action : PassM α} {pass after : Pass} {value : α} {larger : Stream}
    (isLocal : Local action) (within : pass.stream.Within larger)
    (ran : action pass = .ok value after) :
    action (pass.remapped larger) = .ok value (after.remapped larger) := by
  have settles := isLocal.settles pass larger within
  rw [ran] at settles
  generalize action (pass.remapped larger) = outcome at settles
  cases settles with
  | ok => rfl

/-- What succeeds on a stream either does the same on one that maps less, or wants a byte there. -/
theorem Local.of_ok_remapped {action : PassM α} {pass after : Pass} {value : α} {larger : Stream}
    (isLocal : Local action) (within : pass.stream.Within larger)
    (ran : action (pass.remapped larger) = .ok value after) :
    (∃ before, action pass = .ok value before) ∨
      ∃ (failed : Pass) (ops : List MicroOp),
        action pass = .error (.decode (.readOutOfBounds failed.stream.cursor)) failed ∧
          failed.stream.byteAt? failed.stream.cursor = none ∧
          after.machine = failed.machine.recordAll ops := by
  have settles := isLocal.settles pass larger within
  rw [ran] at settles
  generalize action pass = outcome at settles
  generalize same : EStateM.Result.ok value after = other at settles
  cases settles with
  | ok found before =>
      cases same
      exact .inl ⟨before, rfl⟩
  | error => cases same
  | exhausted failed _ ops unmapped beyond recorded =>
      subst same
      exact .inr ⟨failed, ops, rfl, unmapped, recorded⟩

/-- Local computations in sequence are local: what the second one does is settled on the stream
that the first one leaves, which maps the same bytes. -/
theorem Local.bind {first : PassM α} {next : α → PassM β} (one : Local first)
    (two : ∀ value, Local (next value)) : Local (first >>= next) where
  reaches pass := by
    have reaches := one.reaches pass
    cases ran : first pass with
    | ok value between =>
        rw [ran] at reaches
        rw [bind_of_ok ran]
        exact reaches.trans ((two value).reaches between)
    | error fault failed =>
        rw [ran] at reaches
        rw [bind_of_error ran]
        exact reaches
  settles pass larger within := by
    have reaches := one.reaches pass
    have settles := one.settles pass larger within
    generalize small : first pass = outcome at reaches settles
    generalize large : first (pass.remapped larger) = other at settles
    cases settles with
    | ok value between =>
        rw [bind_of_ok small, bind_of_ok large]
        exact (two value).settles between larger (reaches.within within)
    | error fault failed =>
        rw [bind_of_error small, bind_of_error large]
        exact .error fault failed
    | exhausted failed _ ops unmapped beyond recorded =>
        rw [bind_of_error small]
        cases other with
        | ok value between =>
            obtain ⟨-, more, later⟩ := (two value).reaches between
            refine .exhausted failed _ (ops ++ more) unmapped beyond ?_
            rw [bind_of_ok large, later, ← Machine.recordAll_recordAll]
            exact congrArg (Machine.recordAll · more) recorded
        | error fault stopped =>
            refine .exhausted failed _ ops unmapped beyond ?_
            rw [bind_of_error large]
            exact recorded

/-- What is computed from the cursor and the decoder, and changes the decoder only, is local. -/
theorem local_of_decoder (value : UInt32 → Decoder → α) (change : Decoder → Decoder) :
    Local fun pass => .ok (value pass.stream.cursor pass.decoder)
      { pass with decoder := change pass.decoder } where
  reaches pass := ⟨(Reaches.refl pass).consumed, (Reaches.refl pass).recorded⟩
  settles _ _ _ := .ok _ _

theorem Local.pure (value : α) : Local (pure value) :=
  local_of_decoder (fun _ _ => value) id

theorem Local.throw (fault : Fault) : Local (throw fault : PassM α) where
  reaches pass := .refl pass
  settles _ _ _ := .error _ _

theorem Local.ite {condition : Prop} [Decidable condition] {yes no : PassM α} (ofYes : Local yes)
    (ofNo : Local no) : Local (if condition then yes else no) := by
  by_cases holds : condition
  · rwa [if_pos holds]
  · rwa [if_neg holds]

end Local

/-! ## Elementary actions -/

theorem local_cursor : Local cursor :=
  local_of_decoder (fun cursor _ => cursor) id

theorem local_currentDecoder : Local currentDecoder :=
  local_of_decoder (fun _ decoder => decoder) id

theorem local_operand (slot : Slot) : Local (operand slot) :=
  local_of_decoder (fun _ decoder => decoder.slot slot) id

theorem local_modifyDecoder (change : Decoder → Decoder) : Local (modifyDecoder change) :=
  local_of_decoder (fun _ _ => ()) change

theorem local_modifyOperand (slot : Slot) (change : Operand → Operand) :
    Local (modifyOperand slot change) :=
  local_modifyDecoder _

theorem local_modifyContext (change : Context → Context) : Local (modifyContext change) :=
  local_modifyDecoder _

theorem local_refuse {α : Type} (error : DecodeError) : Local (refuse error : PassM α) :=
  .throw _

theorem local_violate {α : Type} (violation : Violation) : Local (violate violation : PassM α) :=
  .throw _

/-- A load brings what the machine holds, and is recorded even if it brings nothing. -/
theorem local_loaded (op : MicroOp) (held : Machine → Except Violation UInt32) :
    Local fun pass => (pass.recordAll [op]).loaded (held pass.machine) where
  reaches pass := by
    cases value : held pass.machine with
    | ok value => exact ⟨(Reaches.refl pass).consumed, ⟨[op], rfl⟩⟩
    | error violation => exact ⟨(Reaches.refl pass).consumed, ⟨[op], rfl⟩⟩
  settles pass larger within := by
    show Settles larger ((pass.recordAll [op]).loaded (held pass.machine))
      (((pass.recordAll [op]).remapped larger).loaded (held pass.machine))
    cases held pass.machine with
    | ok value => exact .ok _ _
    | error violation => exact .error _ _

theorem local_transfer {op : MicroOp} (isLoad : op.IsLoad) : Local (transfer op) := by
  rw [funext fun pass => transfer_of_isLoad isLoad pass]
  exact local_loaded op fun machine => op.held machine.registers machine.memory

/-! ## Reading the stream -/

/-- To look for the byte at the cursor is local, whether the cursor moves past it or not. -/
theorem local_of_next {action : PassM UInt8} (moved : Nat)
    (missing : ∀ pass : Pass, pass.stream.byteAt? pass.stream.cursor = none →
      action pass = .error (.decode (.readOutOfBounds pass.stream.cursor)) pass)
    (found : ∀ (pass : Pass) (byte : UInt8), pass.stream.byteAt? pass.stream.cursor = some byte →
      action pass = .ok byte (pass.skip moved) ∧ pass.Reaches (pass.skip moved)) :
    Local action := by
  have reaches (pass : Pass) : pass.Reaches (left (action pass)) := by
    cases mapped : pass.stream.byteAt? pass.stream.cursor with
    | none =>
        rw [missing pass mapped]
        exact .refl pass
    | some byte =>
        rw [(found pass byte mapped).1]
        exact (found pass byte mapped).2
  refine ⟨reaches, ?_⟩
  intro pass larger within
  cases mapped : pass.stream.byteAt? pass.stream.cursor with
  | none =>
      obtain ⟨-, ops, recorded⟩ := reaches (pass.remapped larger)
      rw [missing pass mapped]
      by_cases beyond : larger.byteAt? pass.stream.cursor = none
      · rw [missing (pass.remapped larger) beyond]
        exact .error _ pass
      · exact .exhausted pass _ ops mapped beyond recorded
  | some byte =>
      have again := (found (pass.remapped larger) byte (within _ _ mapped)).1
      rw [(found pass byte mapped).1, again]
      exact .ok byte (pass.skip moved)

theorem local_fetchByte : Local fetchByte := by
  apply local_of_next 1 fetchByte_of_unmapped
  intro pass byte mapped
  have consumed : pass.stream.Holds [byte] := Stream.holds_cons.mpr ⟨mapped, Stream.holds_nil⟩
  exact ⟨fetchByte_ok_iff.mpr ⟨mapped, rfl⟩, ⟨[byte], consumed, rfl⟩, (Reaches.refl pass).recorded⟩

theorem local_peekByte : Local peekByte := by
  apply local_of_next 0 peekByte_of_unmapped
  intro pass byte mapped
  rw [skip_zero]
  exact ⟨peekByte_ok_iff.mpr ⟨mapped, rfl⟩, .refl pass⟩

/-! ## Composed computations -/

theorem local_requireMemory : Local requireMemory := by
  apply local_peekByte.bind
  intro byte
  exact .ite (local_cursor.bind fun address => local_refuse _) (.pure ())

theorem local_resolveBranch : Local resolveBranch := by
  apply (local_operand .dest).bind
  intro dest
  exact local_cursor.bind fun after => local_modifyContext _

theorem Paired.isLocal {α : Type} {rules : Rules} {certain : Prop} {first second : PassM α}
    (paired : Paired rules certain first second) (lenient : ¬rules.valid) : Local first := by
  induction paired with
  | pure same => exact .pure _
  | violate _ violation => exact local_violate violation
  | fetchByte => exact local_fetchByte
  | load alike known => exact local_transfer alike.isLoad
  | setAddressCell value other => exact local_modifyContext _
  | currentOpcode => exact local_of_decoder (fun _ decoder => decoder.context.opcode) id
  | modifyOperand free slot alike keeps => exact local_modifyOperand slot _
  | requireMemory looks => exact local_requireMemory
  | resolveBranch free isBranch => exact local_resolveBranch
  | withOperand free slot rest nextLocal =>
      -- By itself, the computation finds the same operand on both sides.
      apply (local_operand slot).bind
      intro operand
      exact nextLocal operand operand (.refl _ operand) fun valid => absurd valid lenient
  | bind one rest firstLocal nextLocal =>
      exact firstLocal.bind fun value => nextLocal value value fun _ => rfl

/-- Every sequence of steps is local, whatever the widths of the slots. -/
theorem local_runAll (steps : List Step) : Local (Step.runAll steps) :=
  (Step.composed_lenient steps).isLocal id

/-! ## Instructions -/

/-- A run of prefixes is read locally, however many of them may come. -/
theorem local_readPrefixes (start : UInt32) (room : Nat) (prefixes : PrefixSet) (byte : UInt8) :
    Local (readPrefixes start room prefixes byte) := by
  induction room generalizing prefixes byte with
  | zero =>
      unfold readPrefixes
      cases Prefix.ofByte? byte with
      | none => exact .ite (local_refuse _) (.pure _)
      | some found => exact local_refuse _
  | succ room inductionHypothesis =>
      unfold readPrefixes
      cases Prefix.ofByte? byte with
      | none => exact .ite (local_refuse _) (.pure _)
      | some found =>
          exact local_fetchByte.bind fun next => inductionHypothesis (prefixes.insert found) next

theorem local_readOpcode (byte : UInt8) : Local (readOpcode byte) :=
  .ite (local_fetchByte.bind fun _ => .pure _) (.pure _)

theorem local_select? (row : Row) : Local (select? row) := by
  cases row with
  | unassigned => exact .pure none
  | instruction mnemonic form => exact .pure _
  | group group form => exact local_peekByte.bind fun byte => .pure _

theorem local_select (start : UInt32) (size : OperandSize) (opcode : Opcode) :
    Local (select start size opcode) := by
  apply (local_select? opcode.row).bind
  intro found
  cases found with
  | none => exact local_refuse _
  | some selection => exact .ite (local_refuse _) (.pure selection)

theorem local_begin (opcode : UInt8) (form : Form) (size : OperandSize) :
    Local (begin opcode form size) := by
  apply (local_modifyDecoder _).bind
  intro _
  cases form.sourceWidth with
  | none => exact .pure ()
  | some width => exact local_modifyOperand .src _

theorem local_finish (start : UInt32) : Local (finish start) := by
  apply local_cursor.bind
  intro next
  exact (local_modifyContext _).bind fun _ => .ite (local_refuse _) (.pure _)

/-- Decoding is local, whatever its outcome. -/
theorem local_decode : Local decode := by
  apply local_cursor.bind
  intro start
  apply local_fetchByte.bind
  intro first
  apply (local_readPrefixes start _ .empty first).bind
  intro run
  apply local_currentDecoder.bind
  intro decoder
  apply (local_readOpcode run.2).bind
  intro opcode
  apply (local_select start _ opcode).bind
  intro selection
  apply (local_begin opcode.byte selection.form _).bind
  intro _
  apply (local_runAll selection.form.shape.steps).bind
  intro _
  apply (local_runAll selection.extra.steps).bind
  intro _
  apply (local_finish start).bind
  intro size
  exact local_currentDecoder.bind fun decoder => .pure _

/-- An instruction spans mapped bytes, and any stream that maps them holds an instruction. -/
theorem exists_span_of_decode_ok {pass after : Pass} {instruction : Instruction}
    (ran : decode pass = .ok instruction after) :
    ∃ bytes : List UInt8,
      bytes.length ≤ 15 ∧ instruction.address = pass.stream.cursor ∧
        instruction.size.toNat = bytes.length ∧ pass.stream.Holds bytes ∧
        ∀ other : Stream, other.cursor = pass.stream.cursor → other.Holds bytes →
          ∃ (found : Instruction) (reached : Pass),
            decode { pass with stream := other } = .ok found reached := by
  obtain ⟨encoding, selection, ⟨encodes, holds⟩, rfl, rfl⟩ := decode_ok_iff.mp ran
  obtain ⟨-, remains, short⟩ := encodes_iff.mp ⟨encodes, holds⟩
  have few : encoding.prefixes.length ≤ 14 := by
    rw [encoding.length_bytes] at short
    omega
  refine ⟨encoding.bytes, short, rfl, toNat_length few remains.takes, holds, ?_⟩
  intro other same otherHolds
  exact ⟨_, _, decode_ok_iff.mpr ⟨encoding, selection, ⟨encodes, otherHolds⟩, rfl, rfl⟩⟩

/-- From every stream that maps the bytes of an instruction at the same addresses, it comes out the
same, and so does everything else but the mapping. -/
theorem decode_of_same_bytes {pass after : Pass} {instruction : Instruction} {other : Stream}
    (ran : decode pass = .ok instruction after) (sameCursor : other.cursor = pass.stream.cursor)
    (sameBytes : ∀ index < instruction.size.toNat,
      other.byteAt? (instruction.address + UInt32.ofNat index) =
        pass.stream.byteAt? (instruction.address + UInt32.ofNat index)) :
    decode { pass with stream := other } =
      .ok instruction { after with stream := other.seek after.stream.cursor } := by
  obtain ⟨bytes, short, address, size, holds, decodes⟩ := exists_span_of_decode_ok ran
  have otherHolds : other.HoldsAt pass.stream.cursor bytes := by
    apply Stream.holdsAt_iff.mpr
    intro index below
    rw [← address, sameBytes index (size ▸ below), address]
    exact Stream.holdsAt_iff.mp holds index below
  -- Both streams map more than the bytes alone, from which the instruction is decoded too.
  let alone : Pass := { pass with stream := .mapped bytes.toArray pass.stream.cursor }
  have aloneHolds : alone.stream.Holds bytes :=
    Stream.holds_mapped (Nat.lt_of_le_of_lt short (by decide)) pass.stream.cursor
  have withinHere : alone.stream.Within pass.stream := Stream.within_of_holdsAt holds
  have withinThere : alone.stream.Within other := Stream.within_of_holdsAt otherHolds
  obtain ⟨found, reached, aloneRan⟩ := decodes alone.stream rfl aloneHolds
  have here : decode (alone.remapped pass.stream) = .ok found (reached.remapped pass.stream) :=
    local_decode.ok_remapped withinHere aloneRan
  have there : decode (alone.remapped other) = .ok found (reached.remapped other) :=
    local_decode.ok_remapped withinThere aloneRan
  obtain ⟨rfl, rfl⟩ := EStateM.Result.ok.inj (ran.symm.trans here)
  have start : alone.remapped other = { pass with stream := other } := by
    show { pass with stream := other.seek pass.stream.cursor } = _
    rw [← sameCursor]
    rfl
  rw [← start, there]
  rfl

/-- On a stream that is cut off within an instruction, decoding fails for want of the first byte
that is missing, after a part of the transfers. -/
theorem decode_truncated {pass after : Pass} {instruction : Instruction} {count : Nat}
    (bounded : pass.stream.bytes.size < UInt32.size) (ran : decode pass = .ok instruction after)
    (inside : count < instruction.size.toNat) :
    ∃ (failed : Pass) (early late : List MicroOp),
      decode { pass with
          stream := pass.stream.truncated (instruction.address + UInt32.ofNat count) } =
        .error (.decode (.readOutOfBounds (instruction.address + UInt32.ofNat count))) failed ∧
      failed.stream.cursor = instruction.address + UInt32.ofNat count ∧
      failed.machine = pass.machine.recordAll early ∧
      after.machine = pass.machine.recordAll (early ++ late) := by
  obtain ⟨bytes, -, address, size, holds, -⟩ := exists_span_of_decode_ok ran
  rw [size] at inside
  rw [address]
  let cut := pass.stream.cursor + UInt32.ofNat count
  let less : Pass := { pass with stream := pass.stream.truncated cut }
  have within : less.stream.Within pass.stream := pass.stream.within_truncated cut
  have fullRan : decode (less.remapped pass.stream) = .ok instruction after := ran
  rcases local_decode.of_ok_remapped within fullRan with
    ⟨before, lessRan⟩ | ⟨failed, late, lessRan, missing, recorded⟩
  · -- An instruction of this length would need the byte after the cut.
    obtain ⟨run, -, -, runSize, runHolds, -⟩ := exists_span_of_decode_ok lessRan
    have mapped := Stream.holdsAt_iff.mp runHolds count (by omega)
    have unmapped : (pass.stream.truncated cut).byteAt? cut = none := by
      rw [Stream.byteAt?_truncated, if_neg (Nat.lt_irrefl _)]
    cases mapped.symm.trans unmapped
  · obtain ⟨⟨run, runHolds, stream⟩, early, machine⟩ := local_decode.reaches less
    rw [show decode less = _ from lessRan] at stream machine
    have stopped : failed.stream = less.stream.skip run.length := stream
    have length : run.length = count := by
      rw [stopped] at missing
      exact Stream.length_of_truncated bounded holds inside runHolds missing
    have cursor : failed.stream.cursor = cut := by
      rw [stopped, length]
      rfl
    refine ⟨failed, early, late, ?_, cursor, machine, ?_⟩
    · rw [cursor] at lessRan
      exact lessRan
    · rw [recorded, ← Machine.recordAll_recordAll]
      exact congrArg (Machine.recordAll · late) machine

/-- An instruction is decoded from its own bytes alone, whatever surrounds them, and from no fewer
of them. -/
theorem decode_own_bytes {pass after : Pass} {instruction : Instruction}
    (bounded : pass.stream.bytes.size < UInt32.size) (ran : decode pass = .ok instruction after) :
    (∀ other : Stream, other.cursor = pass.stream.cursor →
      (∀ index < instruction.size.toNat,
        other.byteAt? (instruction.address + UInt32.ofNat index) =
          pass.stream.byteAt? (instruction.address + UInt32.ofNat index)) →
      decode { pass with stream := other } =
        .ok instruction { after with stream := other.seek after.stream.cursor }) ∧
    ∀ count < instruction.size.toNat,
      ∃ (failed : Pass) (early late : List MicroOp),
        decode { pass with
            stream := pass.stream.truncated (instruction.address + UInt32.ofNat count) } =
          .error (.decode (.readOutOfBounds (instruction.address + UInt32.ofNat count))) failed ∧
        failed.stream.cursor = instruction.address + UInt32.ofNat count ∧
        failed.machine = pass.machine.recordAll early ∧
        after.machine = pass.machine.recordAll (early ++ late) := by
  constructor
  · intro other sameCursor sameBytes
    exact decode_of_same_bytes ran sameCursor sameBytes
  · intro count inside
    exact decode_truncated bounded ran inside

/-- `imul ax, word ptr [ebx + 4], -2`, among other bytes, and cut off before its displacement. -/
theorem decode_own_bytes_imul :
    ∃ (instruction : Instruction) (after : Pass),
      (ofBytes #[0x66, 0x6B, 0x43, 0x04, 0xFE] []).stream.bytes.size < UInt32.size ∧
      decode (.ofBytes #[0x66, 0x6B, 0x43, 0x04, 0xFE] []) = .ok instruction after ∧
      (∃ reached : Pass,
        decode { ofBytes #[0x66, 0x6B, 0x43, 0x04, 0xFE] [] with
            stream := (Stream.mapped #[0x0F, 0x66, 0x6B, 0x43, 0x04, 0xFE, 0xC3] 0xFFF).seek
              0x1000 } =
          .ok instruction reached ∧ reached.machine = after.machine) ∧
      ∃ failed : Pass,
        decode { ofBytes #[0x66, 0x6B, 0x43, 0x04, 0xFE] [] with
            stream := Stream.mapped #[0x66, 0x6B, 0x43] 0x1000 } =
          .error (.decode (.readOutOfBounds 0x1003)) failed ∧ failed.stream.cursor = 0x1003 := by
  have bounded : (ofBytes #[0x66, 0x6B, 0x43, 0x04, 0xFE] []).stream.bytes.size < UInt32.size := by
    decide +kernel
  obtain ⟨same, cut⟩ := decode_own_bytes bounded decode_imul
  have elsewhere := same
    ((Stream.mapped #[0x0F, 0x66, 0x6B, 0x43, 0x04, 0xFE, 0xC3] 0xFFF).seek 0x1000) rfl
    (by decide +kernel)
  have address : ((ofBytes #[0x66, 0x6B, 0x43, 0x04, 0xFE] []).instruction imulEncoding
      imulSelection).address + UInt32.ofNat 3 = 0x1003 := rfl
  have truncated : (ofBytes #[0x66, 0x6B, 0x43, 0x04, 0xFE] []).stream.truncated 0x1003 =
      .mapped #[0x66, 0x6B, 0x43] 0x1000 := by
    decide +kernel
  obtain ⟨failed, -, -, stopped, cursor, -, -⟩ := cut 3 (by decide +kernel)
  rw [address] at stopped cursor
  rw [truncated] at stopped
  exact ⟨_, _, bounded, decode_imul, ⟨_, elsewhere, rfl⟩, failed, stopped, cursor⟩

end Pass

end I386
