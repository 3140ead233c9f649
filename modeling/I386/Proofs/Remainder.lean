import I386.Proofs.Conduct

/-!
Contract: what is left of a stream from its cursor on.

Owns:
- the mapped bytes from the cursor to the end of the mapping, for mappings shorter than the
  address space;
- runs of bytes at the cursor, the end of the stream and slices, in these terms;
- local computations, which depend on what is left alone;
- the bytes that decoding an instruction takes from what is left.

Main statement: an instruction is a beginning of what is left and leaves the rest, and what is left
decides how decoding ends, whatever is mapped before the cursor.

Does not own: which bytes form an instruction.
-/

namespace I386

namespace Stream

/-- The mapped bytes from the cursor on. -/
def rest (stream : Stream) : List UInt8 :=
  stream.bytes.toList.drop (stream.offset stream.cursor)

/-- What is left of a stream, mapped alone. -/
def ahead (stream : Stream) : Stream :=
  .mapped stream.rest.toArray stream.cursor

theorem rest_mapped (bytes : List UInt8) (address : UInt32) :
    (mapped bytes.toArray address).rest = bytes := by
  simp [rest, mapped, offset]

theorem length_rest_le (stream : Stream) : stream.rest.length ≤ stream.bytes.size := by
  simp [rest]

/-- What is left begins with the byte at the cursor. -/
theorem byteAt?_cursor (stream : Stream) :
    stream.byteAt? stream.cursor = stream.rest.head? := by
  simp [byteAt?, rest]

theorem rest_eq_nil_iff (stream : Stream) :
    stream.rest = [] ↔ stream.byteAt? stream.cursor = none := by
  rw [byteAt?_cursor, List.head?_eq_none_iff]

theorem atEnd_iff (stream : Stream) : stream.atEnd = true ↔ stream.rest = [] := by
  simp [atEnd, rest_eq_nil_iff]

section Bounded

variable {stream : Stream} (bounded : stream.bytes.size < UInt32.size)

include bounded

theorem rest_of_byteAt? {byte : UInt8} (isMapped : stream.byteAt? stream.cursor = some byte) :
    stream.rest = byte :: (stream.skip 1).rest := by
  obtain ⟨inside, found⟩ := Array.getElem?_eq_some_iff.mp isMapped
  have next : (stream.skip 1).offset (stream.skip 1).cursor =
      stream.offset stream.cursor + 1 := by
    apply offset_add bounded
    intro index below
    obtain rfl : index = 0 := by omega
    simp [isMapped]
  have bytes : (stream.skip 1).bytes = stream.bytes := rfl
  unfold rest
  rw [next, bytes, List.drop_eq_getElem_cons (by simpa using inside)]
  simp [found]

/-- The bytes at the cursor are the beginnings of what is left. -/
theorem holds_iff_prefix_rest {run : List UInt8} : stream.Holds run ↔ run <+: stream.rest := by
  induction run generalizing stream with
  | nil => simp
  | cons byte later inductionHypothesis =>
      have skipped : (stream.skip 1).bytes.size < UInt32.size := bounded
      rw [holds_cons]
      constructor
      · rintro ⟨isMapped, laterHolds⟩
        rw [rest_of_byteAt? bounded isMapped, List.cons_prefix_cons]
        exact ⟨rfl, (inductionHypothesis skipped).mp laterHolds⟩
      · rintro ⟨others, whole⟩
        have isMapped : stream.byteAt? stream.cursor = some byte := by
          rw [byteAt?_cursor, ← whole]
          rfl
        rw [rest_of_byteAt? bounded isMapped] at whole
        exact ⟨isMapped, (inductionHypothesis skipped).mpr ⟨others, (List.cons.inj whole).2⟩⟩

theorem rest_of_holds {run : List UInt8} (holds : stream.Holds run) :
    stream.rest = run ++ (stream.skip run.length).rest := by
  induction run generalizing stream with
  | nil => simp
  | cons byte later inductionHypothesis =>
      obtain ⟨isMapped, laterHolds⟩ := holds_cons.mp holds
      have skipped : (stream.skip 1).bytes.size < UInt32.size := bounded
      rw [rest_of_byteAt? bounded isMapped, inductionHypothesis skipped laterHolds, skip_skip,
        List.length_cons, Nat.add_comm 1, List.cons_append]

theorem holds_rest : stream.Holds stream.rest :=
  (holds_iff_prefix_rest bounded).mpr (List.prefix_refl _)

/-- After what is left, nothing is mapped. -/
theorem byteAt?_after_rest :
    stream.byteAt? (stream.cursor + UInt32.ofNat stream.rest.length) = none := by
  have whole := rest_of_holds bounded (holds_rest bounded)
  exact ((stream.skip stream.rest.length).rest_eq_nil_iff).mp (List.self_eq_append_right.mp whole)

theorem offset_skip {run : List UInt8} (holds : stream.Holds run) :
    (stream.skip run.length).offset (stream.skip run.length).cursor =
      stream.offset stream.cursor + run.length := by
  apply offset_add bounded
  intro index below
  simp [holdsAt_iff.mp holds index below]

/-- The slice over bytes that stand at the cursor consists of them. -/
theorem slice_of_holds {run : List UInt8} (holds : stream.Holds run) :
    (stream.slice stream.cursor (stream.cursor + UInt32.ofNat run.length)).toList = run := by
  have stop : stream.offset (stream.cursor + UInt32.ofNat run.length) =
      stream.offset stream.cursor + run.length := offset_skip bounded holds
  have isPrefix := (holds_iff_prefix_rest bounded).mp holds
  have within : run.length ≤ stream.bytes.size - stream.offset stream.cursor := by
    simpa [rest] using isPrefix.length_le
  rcases Nat.eq_zero_or_pos run.length with empty | positive
  · obtain rfl := List.eq_nil_of_length_eq_zero empty
    simp [slice]
  · have first : min (stream.offset stream.cursor) stream.bytes.size =
        stream.offset stream.cursor := by omega
    have last : max (stream.offset stream.cursor)
        (min (stream.offset stream.cursor + run.length) stream.bytes.size) =
          stream.offset stream.cursor + run.length := by omega
    simp only [slice]
    rw [stop, first, last, Array.toList_extract, List.extract_eq_take_drop, Nat.add_sub_cancel_left]
    exact (List.prefix_iff_eq_take.mp isPrefix).symm

theorem within_ahead : stream.ahead.Within stream :=
  within_of_holdsAt (holds_rest bounded)

end Bounded

end Stream

namespace Pass

/-- A local computation depends on what is left of the stream and on nothing else of it: it cannot
want a byte at the end that another mapping would have there. -/
theorem Local.eq_ahead {α : Type} {action : PassM α} (isLocal : Local action) (pass : Pass)
    (bounded : pass.stream.bytes.size < UInt32.size) :
    action pass =
      mapPass (·.remapped pass.stream) (action { pass with stream := pass.stream.ahead }) := by
  let alone : Pass := { pass with stream := pass.stream.ahead }
  have aloneRest : alone.stream.rest = pass.stream.rest := Stream.rest_mapped _ _
  have aloneBounded : alone.stream.bytes.size < UInt32.size :=
    Nat.lt_of_le_of_lt pass.stream.length_rest_le bounded
  obtain ⟨⟨run, holds, stream⟩, -⟩ := isLocal.reaches alone
  have settles : Settles pass.stream (action alone) (action pass) :=
    isLocal.settles alone pass.stream (Stream.within_ahead bounded)
  show action pass = mapPass (·.remapped pass.stream) (action alone)
  generalize action alone = outcome at stream settles
  generalize action pass = other at settles
  cases settles with
  | ok value after => rfl
  | error fault failed => rfl
  | exhausted failed _ ops unmapped beyond recorded =>
      have stopped : failed.stream = alone.stream.skip run.length := stream
      rw [stopped, ← Stream.rest_eq_nil_iff] at unmapped
      have whole := Stream.rest_of_holds aloneBounded holds
      rw [unmapped, List.append_nil, aloneRest] at whole
      rw [stopped, ← whole] at beyond
      exact absurd (Stream.byteAt?_after_rest bounded) beyond

/-- The bytes of a decoded instruction stand at the cursor, which is moved past them. -/
theorem exists_bytes_of_decode_ok {pass after : Pass} {instruction : Instruction}
    (ran : decode pass = .ok instruction after) :
    ∃ bytes : List UInt8,
      0 < bytes.length ∧ bytes.length ≤ 15 ∧ pass.stream.Holds bytes ∧
        instruction.address = pass.stream.cursor ∧
        instruction.size = UInt32.ofNat bytes.length ∧
        instruction.size.toNat = bytes.length ∧
        after.stream = pass.stream.skip bytes.length := by
  obtain ⟨encoding, selection, ⟨encodes, holds⟩, rfl, rfl⟩ := decode_ok_iff.mp ran
  obtain ⟨-, remains, short⟩ := encodes_iff.mp ⟨encodes, holds⟩
  have length := encoding.length_bytes
  have few : encoding.prefixes.length ≤ 14 := by omega
  exact ⟨encoding.bytes, by omega, short, holds, rfl, rfl, toNat_length few remains.takes,
    stream_staged remains⟩

/-- Where the same is left, decoding fails with the same fault. -/
theorem decode_error_of_rest {pass failed : Pass} {other : Stream} {fault : Fault}
    (bounded : pass.stream.bytes.size < UInt32.size) (otherBounded : other.bytes.size < UInt32.size)
    (cursor : other.cursor = pass.stream.cursor) (same : other.rest = pass.stream.rest)
    (ran : decode pass = .error fault failed) :
    ∃ stopped, decode { pass with stream := other } = .error fault stopped := by
  have ahead : other.ahead = pass.stream.ahead := by
    unfold Stream.ahead
    rw [same, cursor]
  have own := local_decode.eq_ahead pass bounded
  have others := local_decode.eq_ahead { pass with stream := other } otherBounded
  rw [show ({ pass with stream := other } : Pass).stream.ahead = pass.stream.ahead from ahead]
    at others
  rw [own] at ran
  rw [others]
  generalize decode { pass with stream := pass.stream.ahead } = outcome at ran
  cases outcome with
  | ok found reached => cases ran
  | error found stopped =>
      cases ran
      exact ⟨_, rfl⟩

end Pass

end I386
