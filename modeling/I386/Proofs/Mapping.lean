import I386.Stream

/-!
Contract: bytes that stand at consecutive addresses of a stream.

Owns:
- runs of mapped bytes, and streams that map at least what another one maps;
- which bytes a successful fetch took, and the value it made of them;
- the number that little-endian bytes stand for.

Does not own: what happens to a fetch that fails.
-/

namespace I386

/-! ## Sequences of computations -/

section Computation

variable {ε σ α β : Type}

/-- A sequence succeeds exactly if both of its parts do, one after the other. -/
theorem bind_ok_iff {first : EStateM ε σ α} {next : α → EStateM ε σ β} {before after : σ}
    {result : β} :
    (first >>= next) before = .ok result after ↔
      ∃ value between,
        first before = .ok value between ∧ next value between = .ok result after := by
  change EStateM.bind first next before = _ ↔ _
  unfold EStateM.bind
  cases ran : first before with
  | ok value between =>
      constructor
      · intro rest
        exact ⟨value, between, rfl, rest⟩
      · intro given
        rcases given with ⟨_, _, ⟨⟩, rest⟩
        exact rest
  | error fault between => simp

/-- A sequence fails if its first part does, or the second one after it. -/
theorem bind_error_iff {first : EStateM ε σ α} {next : α → EStateM ε σ β} {before after : σ}
    {fault : ε} :
    (first >>= next) before = .error fault after ↔
      first before = .error fault after ∨
        ∃ value between,
          first before = .ok value between ∧ next value between = .error fault after := by
  change EStateM.bind first next before = _ ↔ _
  unfold EStateM.bind
  cases ran : first before with
  | ok value between =>
      constructor
      · intro rest
        exact .inr ⟨value, between, rfl, rest⟩
      · intro given
        rcases given with ⟨⟨⟩⟩ | ⟨_, _, ⟨⟩, rest⟩
        exact rest
  | error fault between => simp

theorem bind_of_ok {first : EStateM ε σ α} {next : α → EStateM ε σ β} {before between : σ}
    {value : α} (ran : first before = .ok value between) :
    (first >>= next) before = next value between := by
  change EStateM.bind first next before = _
  unfold EStateM.bind
  rw [ran]

theorem bind_of_error {first : EStateM ε σ α} {next : α → EStateM ε σ β} {before between : σ}
    {fault : ε} (ran : first before = .error fault between) :
    (first >>= next) before = .error fault between := by
  change EStateM.bind first next before = _
  unfold EStateM.bind
  rw [ran]

/-- What comes after two computations of the same outcome does the same. -/
theorem bind_of_eq {first other : EStateM ε σ α} {next : α → EStateM ε σ β} {before reached : σ}
    (same : first before = other reached) :
    (first >>= next) before = (other >>= next) reached := by
  change EStateM.bind first next before = EStateM.bind other next reached
  unfold EStateM.bind
  rw [same]

theorem pure_ok_iff {value result : α} {before after : σ} :
    (pure value : EStateM ε σ α) before = .ok result after ↔ result = value ∧ after = before := by
  change EStateM.Result.ok value before = _ ↔ _
  rw [EStateM.Result.ok.injEq]
  exact ⟨fun ⟨same, still⟩ => ⟨same.symm, still.symm⟩, fun ⟨same, still⟩ => ⟨same.symm, still.symm⟩⟩

end Computation

/-! ## Little-endian numbers -/

namespace LittleEndian

/-- The number whose base-256 digits, from the lowest one, are the bytes. -/
def number : List UInt8 → Nat
  | [] => 0
  | byte :: rest => byte.toNat + 256 * number rest

theorem number_lt (bytes : List UInt8) : number bytes < Nat.pow 256 bytes.length := by
  induction bytes with
  | nil => simp [number]
  | cons byte rest inductionHypothesis =>
      have low : byte.toNat < 256 := byte.toNat_lt
      show byte.toNat + 256 * number rest < Nat.pow 256 rest.length * 256
      omega

/-- The word of up to four bytes is the number that they stand for. -/
theorem toNat_ofBytes (bytes : List UInt8) (short : bytes.length ≤ 4) :
    (ofBytes bytes).toNat = number bytes := by
  induction bytes with
  | nil => rfl
  | cons byte rest inductionHypothesis =>
      have restShort : rest.length ≤ 3 := Nat.le_of_succ_le_succ short
      have restSmall : number rest < 0x1000000 :=
        Nat.lt_of_lt_of_le (number_lt rest) (Nat.pow_le_pow_right (by decide) restShort)
      have low : byte.toNat < 2 ^ 8 := byte.toNat_lt
      have shifted : (ofBytes rest <<< 8).toNat = number rest <<< 8 := by
        rw [UInt32.toNat_shiftLeft, inductionHypothesis (by omega)]
        have amount : (8 : UInt32).toNat % 32 = 8 := by decide
        rw [amount, Nat.shiftLeft_eq]
        exact Nat.mod_eq_of_lt (by omega)
      rw [ofBytes, UInt32.toNat_or, shifted, UInt8.toNat_toUInt32, Nat.or_comm,
        ← Nat.shiftLeft_add_eq_or_of_lt low, Nat.shiftLeft_eq, number]
      omega

end LittleEndian

/-- The widths of fetches, operands and registers. -/
def ValidWidth (width : UInt8) : Prop :=
  width = 1 ∨ width = 2 ∨ width = 4

namespace Stream

/-! ## Moving the cursor -/

/-- The stream with its cursor moved on by a number of bytes. -/
def skip (stream : Stream) (count : Nat) : Stream :=
  stream.seek (stream.cursor + UInt32.ofNat count)

@[simp] theorem skip_zero (stream : Stream) : stream.skip 0 = stream := by
  simp [skip, seek]

@[simp] theorem skip_skip (stream : Stream) (first second : Nat) :
    (stream.skip first).skip second = stream.skip (first + second) := by
  simp [skip, seek, UInt32.ofNat_add, UInt32.add_assoc]

theorem cursor_skip (stream : Stream) (count : Nat) :
    (stream.skip count).cursor = stream.cursor + UInt32.ofNat count := rfl

@[simp] theorem byteAt?_skip (stream : Stream) (count : Nat) (address : UInt32) :
    (stream.skip count).byteAt? address = stream.byteAt? address := rfl

/-! ## Runs of mapped bytes -/

/-- The bytes are mapped, one after the other, from an address on. -/
def HoldsAt (stream : Stream) : UInt32 → List UInt8 → Prop
  | _, [] => True
  | address, byte :: rest => stream.byteAt? address = some byte ∧ stream.HoldsAt (address + 1) rest

def Holds (stream : Stream) (bytes : List UInt8) : Prop :=
  stream.HoldsAt stream.cursor bytes

theorem holdsAt_append {stream : Stream} {address : UInt32} {front back : List UInt8} :
    stream.HoldsAt address (front ++ back) ↔
      stream.HoldsAt address front ∧
        stream.HoldsAt (address + UInt32.ofNat front.length) back := by
  induction front generalizing address with
  | nil => simp [HoldsAt]
  | cons byte rest inductionHypothesis =>
      have next : address + UInt32.ofNat (rest.length + 1) =
          address + 1 + UInt32.ofNat rest.length := by
        rw [UInt32.ofNat_add, UInt32.add_comm (UInt32.ofNat rest.length), ← UInt32.add_assoc]
        rfl
      simp only [List.cons_append, HoldsAt, inductionHypothesis, List.length_cons, next, and_assoc]

/-- A run is mapped from an address on exactly if each of its bytes is where it belongs. -/
theorem holdsAt_iff {stream : Stream} {address : UInt32} {bytes : List UInt8} :
    stream.HoldsAt address bytes ↔
      ∀ (index : Nat) (below : index < bytes.length),
        stream.byteAt? (address + UInt32.ofNat index) = some bytes[index] := by
  induction bytes generalizing address with
  | nil => simp [HoldsAt]
  | cons byte rest inductionHypothesis =>
      have next (index : Nat) : address + UInt32.ofNat (index + 1) =
          address + 1 + UInt32.ofNat index := by
        rw [UInt32.ofNat_add, UInt32.add_comm (UInt32.ofNat index), ← UInt32.add_assoc]
        rfl
      rw [HoldsAt, inductionHypothesis]
      constructor
      · rintro ⟨first, others⟩ index below
        cases index with
        | zero => simpa using first
        | succ index =>
            rw [next]
            exact others index (by simpa using below)
      · intro all
        have first := all 0 (Nat.zero_lt_succ _)
        rw [List.getElem_cons_zero, show UInt32.ofNat 0 = 0 from rfl, UInt32.add_zero] at first
        refine ⟨first, fun index below => ?_⟩
        rw [← next]
        exact all (index + 1) (Nat.succ_lt_succ below)

/-- Whether a run is mapped does not depend on the cursor. -/
@[simp] theorem holdsAt_skip {stream : Stream} {count : Nat} {address : UInt32}
    {bytes : List UInt8} :
    (stream.skip count).HoldsAt address bytes ↔ stream.HoldsAt address bytes := by
  simp only [holdsAt_iff, byteAt?_skip]

theorem holds_append {stream : Stream} {front back : List UInt8} :
    stream.Holds (front ++ back) ↔
      stream.Holds front ∧ (stream.skip front.length).Holds back := by
  simp only [Holds, holdsAt_append, holdsAt_skip, cursor_skip]

theorem holds_cons {stream : Stream} {byte : UInt8} {rest : List UInt8} :
    stream.Holds (byte :: rest) ↔
      stream.byteAt? stream.cursor = some byte ∧ (stream.skip 1).Holds rest := by
  simp only [Holds, HoldsAt, holdsAt_skip, cursor_skip]
  rfl

@[simp] theorem holds_nil {stream : Stream} : stream.Holds [] := trivial

/-! ## What a fetch takes -/

theorem fetchByte_ok_iff {stream after : Stream} {byte : UInt8} :
    fetchByte stream = .ok byte after ↔
      stream.byteAt? stream.cursor = some byte ∧ after = stream.skip 1 := by
  unfold fetchByte
  cases mapped : stream.byteAt? stream.cursor with
  | none => simp
  | some found =>
      simp only [EStateM.Result.ok.injEq, Option.some.injEq, eq_comm (a := after)]
      rfl

theorem peekByte_ok_iff {stream after : Stream} {byte : UInt8} :
    peekByte stream = .ok byte after ↔
      stream.byteAt? stream.cursor = some byte ∧ after = stream := by
  unfold peekByte
  cases mapped : stream.byteAt? stream.cursor with
  | none => simp
  | some found => simp only [EStateM.Result.ok.injEq, Option.some.injEq, eq_comm (a := after)]

theorem fetchBytes_ok_iff {stream after : Stream} {count : Nat} {bytes : List UInt8} :
    fetchBytes count stream = .ok bytes after ↔
      bytes.length = count ∧ stream.Holds bytes ∧ after = stream.skip count := by
  induction count generalizing stream bytes with
  | zero =>
      rw [fetchBytes, pure_ok_iff, List.length_eq_zero_iff]
      constructor
      · intro succeeded
        rcases succeeded with ⟨rfl, rfl⟩
        simp
      · intro given
        rcases given with ⟨rfl, -, rfl⟩
        simp
  | succ count inductionHypothesis =>
      simp only [fetchBytes, bind_ok_iff, fetchByte_ok_iff, pure_ok_iff]
      constructor
      · intro succeeded
        rcases succeeded with ⟨byte, _, ⟨mapped, rfl⟩, rest, _, fetched, rfl, rfl⟩
        obtain ⟨length, holds, rfl⟩ := inductionHypothesis.mp fetched
        refine ⟨by simp [length], holds_cons.mpr ⟨mapped, holds⟩, ?_⟩
        rw [skip_skip, Nat.add_comm]
      · intro given
        rcases given with ⟨length, holds, skipped⟩
        cases bytes with
        | nil => simp at length
        | cons byte rest =>
            obtain ⟨mapped, restHolds⟩ := holds_cons.mp holds
            have reached : after = (stream.skip 1).skip count := by
              rw [skipped, skip_skip, Nat.add_comm 1]
            have fetched := inductionHypothesis.mpr ⟨Nat.succ.inj length, restHolds, reached⟩
            exact ⟨byte, _, ⟨mapped, rfl⟩, rest, after, fetched, rfl, rfl⟩

theorem fetch_ok_iff {stream after : Stream} {width : UInt8} {value : UInt32} :
    fetch width stream = .ok value after ↔
      ValidWidth width ∧ ∃ bytes : List UInt8, bytes.length = width.toNat ∧ stream.Holds bytes ∧
        value = LittleEndian.ofBytes bytes ∧ after = stream.skip width.toNat := by
  by_cases valid : ValidWidth width
  · have body : fetch width = (do
        let bytes ← fetchBytes width.toNat
        return LittleEndian.ofBytes bytes) := if_pos valid
    rw [body]
    simp only [bind_ok_iff, fetchBytes_ok_iff, pure_ok_iff]
    constructor
    · intro succeeded
      rcases succeeded with ⟨bytes, _, ⟨length, holds, rfl⟩, rfl, rfl⟩
      exact ⟨valid, bytes, length, holds, rfl, rfl⟩
    · intro given
      rcases given with ⟨-, bytes, length, holds, rfl, rfl⟩
      exact ⟨bytes, _, ⟨length, holds, rfl⟩, rfl, rfl⟩
  · have body : fetch width = throw (.violation (.fetchWidth width)) := if_neg valid
    rw [body]
    constructor
    · intro ran
      cases ran
    · intro given
      rcases given with ⟨isValid, -⟩
      exact absurd isValid valid

end Stream

end I386
