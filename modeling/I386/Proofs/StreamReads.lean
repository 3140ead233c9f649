import I386.Proofs.Mirror

/-!
Contract: fetching from a stream, wherever its cursor is.

Owns:
- which addresses are mapped, counted on from the base and from zero past the end of the address
  space;
- fetches that meet an address where nothing is mapped;
- fetches in sequence, and wide fetches as two of half the width.

Main statement: a fetch takes the bytes from the cursor on and makes a little-endian number of them,
or fails at the first of their addresses that is not mapped and leaves the cursor there.

Does not own: which fetches decoding makes.
-/

namespace I386

/-! ## Little-endian numbers -/

namespace LittleEndian

theorem number_append (low high : List UInt8) :
    number (low ++ high) = number low + Nat.pow 256 low.length * number high := by
  induction low with
  | nil => simp [number]
  | cons byte rest inductionHypothesis =>
      have power : Nat.pow 256 (byte :: rest).length = 256 * Nat.pow 256 rest.length :=
        Nat.mul_comm _ _
      rw [List.cons_append, number, inductionHypothesis, number, power, Nat.mul_add, Nat.add_assoc,
        Nat.mul_assoc]

/-- Up to two bytes and as many after them make a word of two halves. -/
theorem ofBytes_append {low high : List UInt8} (short : low.length ≤ 2)
    (same : high.length = low.length) :
    ofBytes (low ++ high) = ofBytes low ||| (ofBytes high <<< UInt32.ofNat (8 * low.length)) := by
  have power : Nat.pow 256 low.length = 2 ^ (8 * low.length) := (Nat.pow_mul 2 8 _).symm
  have lowFits : number low < 2 ^ (8 * low.length) := power ▸ number_lt low
  have highFits : number high < 2 ^ (8 * low.length) := power ▸ same ▸ number_lt high
  have amount : (UInt32.ofNat (8 * low.length)).toNat % 32 = 8 * low.length := by
    rw [UInt32.toNat_ofNat_of_lt' (Nat.lt_of_le_of_lt (Nat.mul_le_mul_left 8 short) (by decide))]
    omega
  have whole : number high * 2 ^ (8 * low.length) < 2 ^ 32 := by
    have square : 2 ^ (8 * low.length) * 2 ^ (8 * low.length) ≤ 2 ^ 32 := by
      rw [← Nat.pow_add]
      exact Nat.pow_le_pow_right (by decide) (by omega)
    exact Nat.lt_of_lt_of_le (Nat.mul_lt_mul_of_pos_right highFits (Nat.two_pow_pos _)) square
  apply UInt32.toNat_inj.mp
  rw [toNat_ofBytes _ (by rw [List.length_append]; omega), number_append, UInt32.toNat_or,
    UInt32.toNat_shiftLeft, toNat_ofBytes low (by omega), toNat_ofBytes high (by omega), amount,
    Nat.shiftLeft_eq, Nat.mod_eq_of_lt whole, ← Nat.shiftLeft_eq, Nat.or_comm,
    ← Nat.shiftLeft_add_eq_or_of_lt lowFits, Nat.shiftLeft_eq, power, Nat.add_comm, Nat.mul_comm]

end LittleEndian

namespace Stream

/-! ## Mapped addresses -/

/-- The byte stands at a place of the mapping, and the address is that of the place. -/
def Maps (stream : Stream) (address : UInt32) (byte : UInt8) : Prop :=
  ∃ place, stream.bytes[place]? = some byte ∧ address = stream.base + UInt32.ofNat place

theorem byteAt?_eq_some_iff {stream : Stream} (short : stream.bytes.size < UInt32.size)
    {address : UInt32} {byte : UInt8} :
    stream.byteAt? address = some byte ↔ stream.Maps address byte := by
  constructor
  · intro found
    exact ⟨stream.offset address, found, (stream.base_add_offset address).symm⟩
  · intro given
    rcases given with ⟨place, found, rfl⟩
    obtain ⟨inside, -⟩ := Array.getElem?_eq_some_iff.mp found
    have offset : stream.offset (stream.base + UInt32.ofNat place) = place := by
      rw [Stream.offset, UInt32.add_comm, UInt32.add_sub_cancel,
        UInt32.toNat_ofNat_of_lt' (Nat.lt_trans inside short)]
    rw [byteAt?, offset, found]

theorem byteAt?_eq_none_iff {stream : Stream} (short : stream.bytes.size < UInt32.size)
    {address : UInt32} :
    stream.byteAt? address = none ↔ ∀ byte, ¬stream.Maps address byte := by
  simp only [Option.eq_none_iff_forall_ne_some, ne_eq, byteAt?_eq_some_iff short]

theorem exists_holds_of_maps {stream : Stream} (short : stream.bytes.size < UInt32.size)
    {count : Nat}
    (mapped : ∀ index < count, ∃ byte, stream.Maps (stream.cursor + UInt32.ofNat index) byte) :
    ∃ bytes, bytes.length = count ∧ stream.Holds bytes := by
  apply exists_holdsAt
  intro index below
  obtain ⟨byte, maps⟩ := mapped index below
  rw [(byteAt?_eq_some_iff short).mpr maps]
  rfl

/-! ## Fetches that fail -/

theorem fetchByte_of_unmapped {stream : Stream}
    (unmapped : stream.byteAt? stream.cursor = none) :
    fetchByte stream = .error (.decode (.readOutOfBounds stream.cursor)) stream := by
  unfold fetchByte
  rw [unmapped]

/-- The bytes before the first one that is missing are taken. -/
theorem fetchBytes_of_unmapped {stream : Stream} {bytes : List UInt8} {count : Nat}
    (holds : stream.Holds bytes) (few : bytes.length < count)
    (unmapped : stream.byteAt? (stream.skip bytes.length).cursor = none) :
    fetchBytes count stream =
      .error (.decode (.readOutOfBounds (stream.skip bytes.length).cursor))
        (stream.skip bytes.length) := by
  induction bytes generalizing stream count with
  | nil =>
      obtain ⟨rest, rfl⟩ := Nat.exists_eq_add_of_lt few
      rw [List.length_nil, skip_zero] at unmapped ⊢
      exact bind_of_error (fetchByte_of_unmapped unmapped)
  | cons byte later inductionHypothesis =>
      obtain ⟨mapped, laterHolds⟩ := holds_cons.mp holds
      obtain ⟨rest, rfl⟩ : ∃ rest, count = rest + 1 := ⟨count - 1, by omega⟩
      have skipped : (stream.skip 1).skip later.length = stream.skip (byte :: later).length := by
        rw [skip_skip, List.length_cons, Nat.add_comm]
      have restFails := inductionHypothesis laterHolds (Nat.lt_of_succ_lt_succ few)
        (by rw [skipped]; exact unmapped)
      rw [skipped] at restFails
      rw [fetchBytes, bind_of_ok (fetchByte_ok_iff.mpr ⟨mapped, rfl⟩)]
      exact bind_of_error restFails

/-- A fetch fails only where nothing is mapped at the cursor. -/
theorem unmapped_of_fetchBytes {stream failed : Stream} {fault : Fault} {count : Nat}
    (ran : fetchBytes count stream = .error fault failed) :
    stream.byteAt? failed.cursor = none := by
  induction count generalizing stream with
  | zero => cases ran
  | succ count inductionHypothesis =>
      rcases bind_error_iff.mp ran with missing | ⟨byte, _, fetched, rest⟩
      · cases mapped : stream.byteAt? stream.cursor with
        | none =>
            cases (fetchByte_of_unmapped mapped).symm.trans missing
            exact mapped
        | some byte => cases (fetchByte_ok_iff.mpr ⟨mapped, rfl⟩).symm.trans missing
      · obtain ⟨-, rfl⟩ := fetchByte_ok_iff.mp fetched
        rcases bind_error_iff.mp rest with later | ⟨_, _, -, last⟩
        · have unmapped : (stream.skip 1).byteAt? failed.cursor = none := inductionHypothesis later
          exact unmapped
        · cases last

/-! ## Fetches in sequence -/

theorem fetchBytes_add (first second : Nat) :
    fetchBytes (first + second) = (do
      let low ← fetchBytes first
      let high ← fetchBytes second
      return low ++ high) := by
  induction first with
  | zero => simp [fetchBytes]
  | succ first inductionHypothesis =>
      rw [Nat.succ_add, fetchBytes, fetchBytes, inductionHypothesis]
      simp only [bind_assoc, pure_bind, List.cons_append]

/-- What is made of bytes that are fetched at once can be made of both of their parts. -/
theorem fetchBytes_parts {α : Type} {first second : Nat} {whole : List UInt8 → α}
    {parts : List UInt8 → List UInt8 → α}
    (same : ∀ low high, low.length = first → high.length = second →
      whole (low ++ high) = parts low high) :
    (do
      let bytes ← fetchBytes (first + second)
      return whole bytes) = (do
        let low ← fetchBytes first
        let high ← fetchBytes second
        return parts low high) := by
  rw [fetchBytes_add]
  simp only [bind_assoc, pure_bind]
  funext stream
  cases ran : fetchBytes first stream with
  | error fault failed => rw [bind_of_error ran, bind_of_error ran]
  | ok low between =>
      rw [bind_of_ok ran, bind_of_ok ran]
      cases restRan : fetchBytes second between with
      | error fault failed => rw [bind_of_error restRan, bind_of_error restRan]
      | ok high after =>
          rw [bind_of_ok restRan, bind_of_ok restRan, same low high (fetchBytes_ok_iff.mp ran).1
            (fetchBytes_ok_iff.mp restRan).1]

theorem fetch_of_valid {width : UInt8} (valid : ValidWidth width) :
    fetch width = (do
      let bytes ← fetchBytes width.toNat
      return LittleEndian.ofBytes bytes) :=
  if_pos valid

/-- Two fetches take the bytes of both, one at a time. -/
theorem fetch_fetch {first second : UInt8} (valid : ValidWidth first)
    (secondValid : ValidWidth second) :
    (do
      let low ← fetch first
      let high ← fetch second
      return (low, high)) = (do
        let bytes ← fetchBytes (first.toNat + second.toNat)
        return (LittleEndian.ofBytes (bytes.take first.toNat),
          LittleEndian.ofBytes (bytes.drop first.toNat))) := by
  rw [fetch_of_valid valid, fetch_of_valid secondValid]
  simp only [bind_assoc, pure_bind]
  refine (fetchBytes_parts fun low high length _ => ?_).symm
  rw [← length, List.take_left, List.drop_left]

/-- A wide fetch is two of half the width, of which the second one brings the high half. -/
theorem fetch_halves {half : UInt8} (narrow : half = 1 ∨ half = 2) :
    fetch (half + half) = (do
      let low ← fetch half
      let high ← fetch half
      return low ||| (high <<< UInt32.ofNat (8 * half.toNat))) := by
  have valid : ValidWidth half := narrow.imp_right .inl
  have wide : ValidWidth (half + half) := by
    rcases narrow with rfl | rfl
    · exact .inr (.inl rfl)
    · exact .inr (.inr rfl)
  have twice : (half + half).toNat = half.toNat + half.toNat := by
    rcases narrow with rfl | rfl <;> rfl
  have small : half.toNat ≤ 2 := by rcases narrow with rfl | rfl <;> decide
  rw [fetch_of_valid wide, fetch_of_valid valid, twice]
  simp only [bind_assoc, pure_bind]
  refine fetchBytes_parts fun low high length highLength => ?_
  rw [LittleEndian.ofBytes_append (length ▸ small) (highLength.trans length.symm), length]

/-! ## What a fetch brings -/

section Fetch

variable {stream : Stream} {width : UInt8}

theorem fetch_of_unmapped (valid : ValidWidth width) {bytes : List UInt8}
    (holds : stream.Holds bytes) (few : bytes.length < width.toNat)
    (unmapped : stream.byteAt? (stream.skip bytes.length).cursor = none) :
    fetch width stream =
      .error (.decode (.readOutOfBounds (stream.skip bytes.length).cursor))
        (stream.skip bytes.length) := by
  rw [fetch_of_valid valid]
  exact bind_of_error (fetchBytes_of_unmapped holds few unmapped)

/-- At the end of a stream every fetch fails without moving on, and nowhere else does one. -/
theorem atEnd_iff_fetch (valid : ValidWidth width) :
    stream.atEnd = true ↔
      fetch width stream = .error (.decode (.readOutOfBounds stream.cursor)) stream := by
  rw [atEnd, Option.isNone_iff_eq_none]
  constructor
  · intro unmapped
    have positive : 0 < width.toNat := by rcases valid with rfl | rfl | rfl <;> decide
    have nothing : stream.Holds [] := holds_nil
    have fails := fetch_of_unmapped valid nothing positive
    rw [List.length_nil, skip_zero] at fails
    exact fails unmapped
  · intro ran
    rw [fetch_of_valid valid] at ran
    rcases bind_error_iff.mp ran with missing | ⟨_, _, -, last⟩
    · exact unmapped_of_fetchBytes missing
    · cases last

theorem fetch_of_mapped (short : stream.bytes.size < UInt32.size) (valid : ValidWidth width)
    (mapped : ∀ index < width.toNat,
      ∃ byte, stream.Maps (stream.cursor + UInt32.ofNat index) byte) :
    ∃ (bytes : List UInt8) (value : UInt32), bytes.length = width.toNat ∧
      (∀ (index : Nat) (below : index < bytes.length),
        stream.Maps (stream.cursor + UInt32.ofNat index) bytes[index]) ∧
      fetch width stream =
        .ok value (stream.seek (stream.cursor + UInt32.ofNat width.toNat)) ∧
      value.toNat = LittleEndian.number bytes ∧ value.toNat < 2 ^ (8 * width.toNat) := by
  obtain ⟨bytes, length, holds⟩ := exists_holds_of_maps short mapped
  have few : bytes.length ≤ 4 := by
    rw [length]
    rcases valid with rfl | rfl | rfl <;> decide
  have number := LittleEndian.toNat_ofBytes bytes few
  have power : Nat.pow 256 bytes.length = 2 ^ (8 * width.toNat) := by
    rw [length]
    exact (Nat.pow_mul 2 8 _).symm
  refine ⟨bytes, LittleEndian.ofBytes bytes, length, fun index below => ?_, ?_, number, ?_⟩
  · exact (byteAt?_eq_some_iff short).mp (holdsAt_iff.mp holds index below)
  · exact fetch_ok_iff.mpr ⟨valid, bytes, length, holds, rfl, rfl⟩
  · rw [number, ← power]
    exact LittleEndian.number_lt bytes

theorem fetch_of_first_unmapped (short : stream.bytes.size < UInt32.size)
    (valid : ValidWidth width) {count : Nat} (inside : count < width.toNat)
    (mapped : ∀ index < count, ∃ byte, stream.Maps (stream.cursor + UInt32.ofNat index) byte)
    (unmapped : ∀ byte, ¬stream.Maps (stream.cursor + UInt32.ofNat count) byte) :
    fetch width stream =
      .error (.decode (.readOutOfBounds (stream.cursor + UInt32.ofNat count)))
        (stream.seek (stream.cursor + UInt32.ofNat count)) := by
  obtain ⟨bytes, rfl, holds⟩ := exists_holds_of_maps short mapped
  exact fetch_of_unmapped valid holds inside ((byteAt?_eq_none_iff short).mpr unmapped)

end Fetch

/-- Wherever the cursor of a stream is that maps less than the address space: if all addresses of a
fetch are mapped, it brings the number that their bytes stand for and moves past them, and if not,
it fails at the first one that is not and leaves the cursor there. It fails where the cursor is
exactly at the end of the stream. Fetches in sequence take the bytes of all of them one at a time,
and a wide one is two of half the width. -/
theorem fetch_little_endian {stream : Stream} (short : stream.bytes.size < UInt32.size) :
    (∀ width, ValidWidth width →
      ((∀ index < width.toNat, ∃ byte, stream.Maps (stream.cursor + UInt32.ofNat index) byte) →
        ∃ (bytes : List UInt8) (value : UInt32), bytes.length = width.toNat ∧
          (∀ (index : Nat) (below : index < bytes.length),
            stream.Maps (stream.cursor + UInt32.ofNat index) bytes[index]) ∧
          fetch width stream =
            .ok value (stream.seek (stream.cursor + UInt32.ofNat width.toNat)) ∧
          value.toNat = LittleEndian.number bytes ∧ value.toNat < 2 ^ (8 * width.toNat)) ∧
      (∀ count < width.toNat,
        (∀ index < count, ∃ byte, stream.Maps (stream.cursor + UInt32.ofNat index) byte) →
        (∀ byte, ¬stream.Maps (stream.cursor + UInt32.ofNat count) byte) →
          fetch width stream =
            .error (.decode (.readOutOfBounds (stream.cursor + UInt32.ofNat count)))
              (stream.seek (stream.cursor + UInt32.ofNat count))) ∧
      (stream.atEnd = true ↔
        fetch width stream = .error (.decode (.readOutOfBounds stream.cursor)) stream)) ∧
    (∀ first second, ValidWidth first → ValidWidth second →
      (do
        let low ← fetch first
        let high ← fetch second
        return (low, high)) = (do
          let bytes ← fetchBytes (first.toNat + second.toNat)
          return (LittleEndian.ofBytes (bytes.take first.toNat),
            LittleEndian.ofBytes (bytes.drop first.toNat)))) ∧
    ∀ half, half = 1 ∨ half = 2 →
      fetch (half + half) = (do
        let low ← fetch half
        let high ← fetch half
        return low ||| (high <<< UInt32.ofNat (8 * half.toNat))) := by
  refine ⟨fun width valid => ⟨?_, ?_, atEnd_iff_fetch valid⟩, ?_, ?_⟩
  · intro mapped
    exact fetch_of_mapped short valid mapped
  · intro count inside mapped unmapped
    exact fetch_of_first_unmapped short valid inside mapped unmapped
  · intro first second valid secondValid
    exact fetch_fetch valid secondValid
  · intro half narrow
    exact fetch_halves narrow

/-- Three bytes across the end of the address space: the first two, and the want of a fourth. -/
theorem fetch_little_endian_wrapped :
    let stream := mapped #[0x11, 0x22, 0x33] 0xFFFFFFFE
    (stream.bytes.size < UInt32.size ∧ ValidWidth 2 ∧ ValidWidth 4 ∧
      (∀ index < 3, ∃ byte, stream.Maps (stream.cursor + UInt32.ofNat index) byte) ∧
      ∀ byte, ¬stream.Maps (stream.cursor + UInt32.ofNat 3) byte) ∧
    (∃ value, fetch 2 stream = .ok value (stream.seek 0) ∧ value.toNat < 2 ^ 16) ∧
    fetch 4 stream = .error (.decode (.readOutOfBounds 1)) (stream.seek 1) := by
  intro stream
  have short : stream.bytes.size < UInt32.size := by decide
  have word : ValidWidth 2 := .inr (.inl rfl)
  have dword : ValidWidth 4 := .inr (.inr rfl)
  have mapped (index : Nat) (below : index < 3) :
      ∃ byte, stream.Maps (stream.cursor + UInt32.ofNat index) byte :=
    ⟨_, index, Array.getElem?_eq_getElem below, rfl⟩
  have missing : stream.byteAt? (stream.cursor + UInt32.ofNat 3) = none := by decide +kernel
  have unmapped : ∀ byte, ¬stream.Maps (stream.cursor + UInt32.ofNat 3) byte :=
    (byteAt?_eq_none_iff short).mp missing
  have pastTwo : stream.cursor + UInt32.ofNat (UInt8.toNat 2) = 0 := by decide +kernel
  have pastThree : stream.cursor + UInt32.ofNat 3 = 1 := by decide +kernel
  obtain ⟨widths, -, -⟩ := fetch_little_endian short
  obtain ⟨bytes, value, -, -, fetched, -, small⟩ :=
    (widths 2 word).1 fun index below => mapped index (Nat.lt_succ_of_lt below)
  have cut := (widths 4 dword).2.1 3 (by decide) mapped unmapped
  rw [pastTwo] at fetched
  rw [pastThree] at cut
  exact ⟨⟨short, word, dword, mapped, unmapped⟩, ⟨value, fetched, small⟩, cut⟩

end Stream

end I386
