import I386.Proofs.Heading

/-!
Contract: what an earlier instruction leaves behind in a decoder.

Owns:
- decoding with another decoder of the same default operand size;
- decoding the same bytes once more;
- what the context says after decoding.

Main statements:
- nothing but the default operand size of a decoder counts for what decoding returns, consumes and
  transfers, and a decoder that succeeded holds nothing from before;
- the context describes the instruction whose heading was read, and if none was, decoding leaves
  the decoder to an earlier instruction.

Does not own: what is decoded.
-/

namespace I386.Pass

/-! ## Decoding again -/

/-- The pass with another record of transfers. -/
def retraced (pass : Pass) (trace : Option (Array MicroOp)) : Pass :=
  { pass with machine := { pass.machine with trace } }

/-- The pass with its cursor at another address. -/
def rewound (pass : Pass) (address : UInt32) : Pass :=
  { pass with stream := pass.stream.seek address }

/-- However decoding ends, its stream is back where it was when the cursor is. -/
theorem stream_rewound (pass : Pass) :
    ((left (decode pass)).rewound pass.stream.cursor).stream = pass.stream := by
  obtain ⟨bytes, -, stream⟩ := (local_decode.reaches pass).consumed
  unfold rewound
  rw [stream]
  rfl

theorem mapPass_id {α : Type} (outcome : EStateM.Result Fault Pass α) :
    mapPass id outcome = outcome := by
  cases outcome <;> rfl

/-- Of the decoder before, only the default operand size counts when an instruction has begun. -/
theorem Outcome.of_other_decoder {start : UInt32} {heading : Heading} {pass : Pass}
    {ops : List MicroOp} (outcome : Outcome start heading pass ops) {other : Decoder}
    (same : other.defaultSize = pass.decoder.defaultSize) :
    decodeOperands start heading { pass with decoder := other } =
      decodeOperands start heading pass := by
  have trace : pass.machine.trace.map (· ++ ops.toArray) =
      (left (decodeOperands start heading pass)).machine.trace := by
    rw [outcome.recorded]
    rfl
  calc decodeOperands start heading { pass with decoder := other }
      = mapPass (·.reframed (pass.machine.trace.map (· ++ ops.toArray)) other.defaultSize)
          (decodeOperands start heading pass) := outcome.frame pass.machine.trace other
    _ = mapPass id (decodeOperands start heading pass) := by
        apply mapPass_congr
        rw [same, ← outcome.defaultSize, trace]
        rfl
    _ = decodeOperands start heading pass := mapPass_id _

/-- However decoding ends, the default operand size is what it was. -/
theorem defaultSize_decode (pass : Pass) :
    (left (decode pass)).decoder.defaultSize = pass.decoder.defaultSize := by
  rcases decode_outcome pass.stream pass.decoder.defaultSize with
    ⟨error, after, refused⟩ | ⟨heading, between, regular, ran⟩
  · rw [show decode pass = _ from refused pass.machine pass.decoder rfl]
    rfl
  · obtain ⟨ops, outcome⟩ :=
      exists_outcome regular pass.stream.cursor ⟨between, pass.machine, pass.decoder⟩
    rw [show decode pass = _ from ran pass.machine pass.decoder rfl]
    exact outcome.defaultSize

/-- With another decoder of the same default operand size, decoding fails alike. -/
theorem decode_error_of_defaultSize {pass failed : Pass} {fault : Fault} {other : Decoder}
    (ran : decode pass = .error fault failed)
    (same : other.defaultSize = pass.decoder.defaultSize) :
    ∃ stopped, decode { pass with decoder := other } = .error fault stopped := by
  rcases decode_outcome pass.stream pass.decoder.defaultSize with
    ⟨error, after, refused⟩ | ⟨heading, between, regular, begins⟩
  · have own := refused pass.machine pass.decoder rfl
    cases own.symm.trans ran
    exact ⟨_, refused pass.machine other same⟩
  · obtain ⟨ops, outcome⟩ :=
      exists_outcome regular pass.stream.cursor ⟨between, pass.machine, pass.decoder⟩
    have own : decode pass = _ := begins pass.machine pass.decoder rfl
    refine ⟨failed, (begins pass.machine other same).trans ?_⟩
    exact (outcome.of_other_decoder same).trans (own.symm.trans ran)

/-- The machine after decoding is the one before, with some transfers recorded, and from there
decoding once more does the same and records the same. -/
theorem exists_decode_again (pass : Pass) :
    ∃ ops, (left (decode pass)).machine = pass.machine.recordAll ops ∧
      ∀ trace,
        decode (((left (decode pass)).rewound pass.stream.cursor).retraced trace) =
          mapPass (·.retraced (trace.map (· ++ ops.toArray))) (decode pass) := by
  have stream := pass.stream_rewound
  rcases decode_outcome pass.stream pass.decoder.defaultSize with
    ⟨error, after, refused⟩ | ⟨heading, between, regular, ran⟩
  · have own := refused pass.machine pass.decoder rfl
    rw [own] at stream ⊢
    refine ⟨[], pass.machine.recordAll_nil.symm, ?_⟩
    intro trace
    have again := refused { pass.machine with trace } pass.decoder rfl
    rw [← stream] at again
    refine again.trans ?_
    simp [mapPass, retraced]
  · have own := ran pass.machine pass.decoder rfl
    obtain ⟨ops, outcome⟩ :=
      exists_outcome regular pass.stream.cursor ⟨between, pass.machine, pass.decoder⟩
    have recorded := outcome.recorded
    have defaultSize := outcome.defaultSize
    rw [← own] at recorded defaultSize
    refine ⟨ops, recorded, ?_⟩
    intro trace
    have again := ran { pass.machine with trace } (left (decode pass)).decoder defaultSize
    have machine : ({ (left (decode pass)).machine with trace } : Machine) =
        { pass.machine with trace } := by
      rw [recorded]
      rfl
    have input : ((left (decode pass)).rewound pass.stream.cursor).retraced trace =
        ⟨pass.stream, { pass.machine with trace }, (left (decode pass)).decoder⟩ :=
      congrFun (congr (congrArg Pass.mk stream) machine) (left (decode pass)).decoder
    calc decode (((left (decode pass)).rewound pass.stream.cursor).retraced trace)
        = decodeOperands pass.stream.cursor heading
            ⟨between, { pass.machine with trace }, (left (decode pass)).decoder⟩ := input ▸ again
      _ = mapPass (·.reframed (trace.map (· ++ ops.toArray))
            (left (decode pass)).decoder.defaultSize) (decode pass) :=
          own ▸ outcome.frame trace (left (decode pass)).decoder
      _ = mapPass (·.retraced (trace.map (· ++ ops.toArray))) (decode pass) :=
          mapPass_congr rfl

/-- Nothing of a decoder but its default operand size counts: with another decoder, decoding gives
the same outcome and leaves the same pass, unless it was refused before the instruction began and
leaves either decoder as it was. Decoding once more from the same cursor repeats the outcome and
records the same transfers. -/
theorem decode_independent_of_history {pass : Pass} {other : Decoder}
    (same : other.defaultSize = pass.decoder.defaultSize) :
    (decode { pass with decoder := other } = decode pass ∨
      ∃ (error : DecodeError) (failed : Pass),
        decode pass = .error (.decode error) failed ∧ failed.decoder = pass.decoder ∧
          decode { pass with decoder := other } =
            .error (.decode error) { failed with decoder := other }) ∧
    ∃ ops, (left (decode pass)).machine = pass.machine.recordAll ops ∧
      ∀ trace,
        decode (((left (decode pass)).rewound pass.stream.cursor).retraced trace) =
          mapPass (·.retraced (trace.map (· ++ ops.toArray))) (decode pass) := by
  refine ⟨?_, pass.exists_decode_again⟩
  rcases decode_outcome pass.stream pass.decoder.defaultSize with
    ⟨error, after, refused⟩ | ⟨heading, between, regular, ran⟩
  · exact .inr ⟨error, _, refused pass.machine pass.decoder rfl, rfl,
      refused pass.machine other same⟩
  · have own := ran pass.machine pass.decoder rfl
    have others := ran pass.machine other same
    obtain ⟨ops, outcome⟩ :=
      exists_outcome regular pass.stream.cursor ⟨between, pass.machine, pass.decoder⟩
    exact .inl (others.trans ((outcome.of_other_decoder same).trans own.symm))

/-- A decoder in which a short branch has begun decodes a multiplication as any other. -/
theorem decode_independent_of_history_imul :
    let pass := ofBytes #[0x66, 0x6B, 0x43, 0x04, 0xFE] []
    let other := pass.decoder.start 0xEB 1 .bits16
    other.defaultSize = pass.decoder.defaultSize ∧
      decode { pass with decoder := other } = decode pass := by
  intro pass other
  have same : other.defaultSize = pass.decoder.defaultSize := rfl
  refine ⟨same, ?_⟩
  rcases (decode_independent_of_history same).1 with equal | ⟨error, failed, refused, -⟩
  · exact equal
  · cases refused.symm.trans decode_imul

/-! ## The context -/

/-- Decoding with any decoder of the same default operand size goes on from a heading that can be
read with one. -/
theorem decode_of_readHeading {pass between : Pass} {heading : Heading}
    (read : readHeading pass.stream.cursor pass.decoder.defaultSize pass = .ok heading between)
    {decoder : Decoder} (same : decoder.defaultSize = pass.decoder.defaultSize) :
    decode { pass with decoder } = decodeOperands pass.stream.cursor heading
      ⟨between.stream, pass.machine, decoder⟩ := by
  have reads := (ofStream_readHeading _ _).of_ok read decoder
  rw [decode_eq_halves]
  exact same ▸ bind_of_ok reads

/-- Where a heading can be read, the context describes its instruction afterwards, and nothing in
the decoder depends on what it held before. -/
theorem describes_of_readHeading {pass between : Pass} {heading : Heading}
    (read : readHeading pass.stream.cursor pass.decoder.defaultSize pass = .ok heading between) :
    heading.Describes (left (decode pass)) ∧
      ∀ other : Decoder, other.defaultSize = pass.decoder.defaultSize →
        decode { pass with decoder := other } = decode pass := by
  obtain ⟨ops, outcome⟩ := exists_outcome (regular_of_readHeading read) pass.stream.cursor
    ⟨between.stream, pass.machine, pass.decoder⟩
  have own : decode pass = _ := decode_of_readHeading read rfl
  refine ⟨own ▸ outcome.describes, ?_⟩
  intro other same
  exact (decode_of_readHeading read same).trans ((outcome.of_other_decoder same).trans own.symm)

/-- If the heading of an instruction can be read, the context describes that instruction however
decoding ends, and nothing in the decoder depends on what it held before. If it cannot, decoding
fails and the decoder is left as it was. What is decoded has a heading that can be read. -/
theorem decode_context (pass : Pass) :
    (∀ heading between,
      readHeading pass.stream.cursor pass.decoder.defaultSize pass = .ok heading between →
        heading.Describes (left (decode pass)) ∧
          ∀ other : Decoder, other.defaultSize = pass.decoder.defaultSize →
            decode { pass with decoder := other } = decode pass) ∧
    (∀ fault failed,
      readHeading pass.stream.cursor pass.decoder.defaultSize pass = .error fault failed →
        decode pass = .error fault failed ∧ failed.decoder = pass.decoder) ∧
    ∀ instruction after, decode pass = .ok instruction after →
      ∃ heading between,
        readHeading pass.stream.cursor pass.decoder.defaultSize pass = .ok heading between := by
  refine ⟨fun heading between read => describes_of_readHeading read, ?_, ?_⟩
  · intro fault failed read
    exact ⟨(decode_eq_halves pass).trans (bind_of_error read),
      (ofStream_readHeading _ _).decoder_of_error read⟩
  · intro instruction after ran
    rw [decode_eq_halves, bind_ok_iff] at ran
    obtain ⟨heading, between, read, -⟩ := ran
    exact ⟨heading, between, read⟩

/-- Of a short branch the heading can be read, and of what is after it, where the stream ends,
none can. -/
theorem decode_context_branch :
    let pass := ofBytes #[0xEB, 0x05] []
    let branch := left (decode pass)
    (∃ heading between,
      readHeading pass.stream.cursor pass.decoder.defaultSize pass = .ok heading between ∧
        heading.Describes branch) ∧
    ∃ fault failed,
      readHeading branch.stream.cursor branch.decoder.defaultSize branch = .error fault failed ∧
        decode branch = .error fault failed ∧ failed.decoder = branch.decoder := by
  intro pass branch
  constructor
  · cases read : readHeading pass.stream.cursor pass.decoder.defaultSize pass with
    | ok heading between =>
        exact ⟨heading, between, rfl, ((decode_context pass).1 heading between read).1⟩
    | error fault failed =>
        have succeeds :
            (match readHeading pass.stream.cursor pass.decoder.defaultSize pass with
              | .ok _ _ => true
              | .error _ _ => false) = true := by
          decide +kernel
        rw [read] at succeeds
        cases succeeds
  · have unmapped : branch.stream.byteAt? branch.stream.cursor = none := by decide +kernel
    have read : readHeading branch.stream.cursor branch.decoder.defaultSize branch =
        .error (.decode (.readOutOfBounds branch.stream.cursor)) branch :=
      bind_of_error (bind_of_error (fetchByte_of_unmapped _ unmapped))
    exact ⟨_, _, read, (decode_context branch).2.1 _ _ read⟩

/-- Where no byte is mapped, decoding changes nothing. -/
theorem decode_of_unmapped {pass : Pass}
    (unmapped : pass.stream.byteAt? pass.stream.cursor = none) :
    decode pass = .error (.decode (.readOutOfBounds pass.stream.cursor)) pass := by
  rw [decode_eq]
  exact bind_of_error (bind_of_error (fetchByte_of_unmapped _ unmapped))

/-- After a short branch at the end of the stream, decoding fails and leaves the branch in the
context. -/
theorem decode_leaves_branch :
    let branch := left (decode (ofBytes #[0xEB, 0x05] []))
    decode branch = .error (.decode (.readOutOfBounds 0x1002)) branch ∧
      branch.decoder.context = ⟨0xEB, true, 0x1007, 0x1002, .bits32, .zero⟩ := by
  intro branch
  have context : branch.decoder.context = ⟨0xEB, true, 0x1007, 0x1002, .bits32, .zero⟩ := by
    decide +kernel
  have cursor : branch.stream.cursor = 0x1002 := by decide +kernel
  have unmapped : branch.stream.byteAt? branch.stream.cursor = none := by decide +kernel
  exact ⟨cursor ▸ decode_of_unmapped unmapped, context⟩

end I386.Pass
