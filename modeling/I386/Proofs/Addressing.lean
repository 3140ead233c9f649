import I386.Proofs.Action

/-!
Contract: the encodings of register-or-memory operands, and the addresses that they form.

Owns:
- the bytes of such an encoding: ModR/M byte, SIB byte and displacement, each there exactly when
  the bytes before it call for it;
- the form of an address: base register, scaled index register and displacement;
- computing the address of an encoding that stands at the cursor, and the converse that an address
  is computed from nothing else.

Main statement: the address of a memory operand is the sum of the parts of its form, modulo 2^32.

Does not own: staging what registers and memory hold.
-/

namespace I386

/-! ## Encodings -/

/-- The number of displacement bytes that a ModR/M byte and the SIB byte after it call for. -/
def displacementLength (modRm : ModRm) (sib : Option UInt8) : Nat :=
  if modRm.mode = 1 then 1
  else if modRm.mode = 2 then 4
  else if modRm.mode = 0 ∧ (modRm.rm = 5 ∨ sib.any fun byte => (Sib.ofByte byte).base = 5) then 4
  else 0

theorem displacementLength_le (modRm : ModRm) (sib : Option UInt8) :
    displacementLength modRm sib ≤ 4 := by
  unfold displacementLength
  repeat' split
  all_goals omega

def DisplacementSize.length : DisplacementSize → Nat
  | none => 0
  | byte => 1
  | dword => 4

/-- A complete encoding of a register-or-memory operand. -/
structure Addressing where
  modRm : ModRm
  sib : Option UInt8
  displacement : List UInt8
  isSome_sib : sib.isSome = modRm.hasSib
  length_displacement : displacement.length = displacementLength modRm sib

namespace Addressing

def tail (encoding : Addressing) : List UInt8 :=
  encoding.sib.toList ++ encoding.displacement

def bytes (encoding : Addressing) : List UInt8 :=
  encoding.modRm.byte :: encoding.tail

theorem length_bytes (encoding : Addressing) :
    encoding.bytes.length = 1 + (if encoding.modRm.hasSib then 1 else 0) +
      displacementLength encoding.modRm encoding.sib := by
  have sibLength : encoding.sib.toList.length = if encoding.modRm.hasSib then 1 else 0 := by
    rw [← encoding.isSome_sib]
    cases encoding.sib <;> rfl
  rw [bytes, tail, List.length_cons, List.length_append, sibLength, encoding.length_displacement]
  omega

theorem length_bytes_le (encoding : Addressing) : encoding.bytes.length ≤ 6 := by
  have displacement := displacementLength_le encoding.modRm encoding.sib
  rw [encoding.length_bytes]
  split <;> omega

end Addressing

/-- How an address is formed: from a base register, an index register with the power of two that
scales it, and a displacement. -/
structure AddressForm where
  base : Option UInt8
  index : Option (UInt8 × UInt8)
  displacement : UInt32
deriving DecidableEq, Repr

/-- The sum of the parts of an address, before it is reduced to 32 bits. -/
def AddressForm.sum (form : AddressForm) (registers : Registers) : Nat :=
  (form.base.elim 0 fun number => (registers.contents number 4).toNat) +
    (form.index.elim 0 fun (number, scale) =>
      (registers.contents number 4).toNat * Nat.pow 2 scale.toNat) +
    form.displacement.toNat

/-- The index register of a SIB byte and its scale. The number of ESP names no index. -/
def Sib.scaledRegister (sib : Sib) : Option (UInt8 × UInt8) :=
  if sib.index = 4 then none else some (sib.index, sib.scale)

/-- The 32-bit word that a byte stands for as a signed number. -/
def signedByte (byte : UInt8) : UInt32 :=
  if byte < 0x80 then byte.toUInt32 else byte.toUInt32 - 0x100

/-- The 32-bit word that the bytes of a displacement add: one byte is signed. -/
def displacementWord : List UInt8 → UInt32
  | [byte] => signedByte byte
  | bytes => UInt32.ofNat (LittleEndian.number bytes)

namespace Addressing

/-- The base register: the one in the ModR/M byte, or in the SIB byte if there is one. In mode 0
the number of EBP names no base. -/
def base (encoding : Addressing) : Option UInt8 :=
  let number := encoding.sib.elim encoding.modRm.rm fun byte => (Sib.ofByte byte).base
  if encoding.modRm.mode = 0 ∧ number = 5 then none else some number

/-- The index register and its scale. There is none without a SIB byte. -/
def index (encoding : Addressing) : Option (UInt8 × UInt8) :=
  encoding.sib.bind fun byte => (Sib.ofByte byte).scaledRegister

def form (encoding : Addressing) : AddressForm :=
  ⟨encoding.base, encoding.index, displacementWord encoding.displacement⟩

def address (encoding : Addressing) (registers : Registers) : UInt32 :=
  UInt32.ofNat (encoding.form.sum registers)

end Addressing

/-! ## Fields of the ModR/M and SIB bytes -/

theorem toNat_shiftRight_six_lt (byte : UInt8) : (byte >>> 6).toNat < 4 := by
  have low : byte.toNat < 256 := byte.toNat_lt
  rw [UInt8.toNat_shiftRight, Nat.shiftRight_eq_div_pow]
  change byte.toNat / 64 < 4
  omega

theorem ModRm.mode_cases (modRm : ModRm) :
    modRm.mode = 0 ∨ modRm.mode = 1 ∨ modRm.mode = 2 ∨ modRm.mode = 3 := by
  have small := toNat_shiftRight_six_lt modRm.byte
  simp only [ModRm.mode, ← UInt8.toNat_inj]
  change _ = 0 ∨ _ = 1 ∨ _ = 2 ∨ _ = 3
  omega

theorem signedByte_eq (byte : UInt8) : byte.toInt8.toInt32.toUInt32 = signedByte byte := by
  have all : ∀ index : Fin 256,
      (UInt8.ofNat index).toInt8.toInt32.toUInt32 = signedByte (UInt8.ofNat index) := by
    decide +kernel
  simpa using all ⟨byte.toNat, byte.toNat_lt⟩

/-- Shifting a register by a scale multiplies it. -/
theorem scaled_eq (value : UInt32) (byte : UInt8) :
    value <<< (Sib.ofByte byte).scale.toUInt32 =
      UInt32.ofNat (value.toNat * Nat.pow 2 (Sib.ofByte byte).scale.toNat) := by
  have small : (Sib.ofByte byte).scale.toNat < 4 := toNat_shiftRight_six_lt byte
  have amount : (Sib.ofByte byte).scale.toNat % 32 = (Sib.ofByte byte).scale.toNat :=
    Nat.mod_eq_of_lt (by omega)
  apply UInt32.toNat_inj.mp
  rw [UInt32.toNat_shiftLeft, UInt8.toNat_toUInt32, amount, Nat.shiftLeft_eq, UInt32.toNat_ofNat']
  rfl

/-- The encoding of a register operand: the ModR/M byte is all of it. -/
def Addressing.ofRegister (modRm : ModRm) (register : modRm.isMemory = false) : Addressing where
  modRm
  sib := none
  displacement := []
  isSome_sib := by simp [ModRm.hasSib, register]
  length_displacement := by
    have mode : modRm.mode = 3 := by simpa [ModRm.isMemory] using register
    simp [displacementLength, mode]

/-! ## Computing an address -/

/-- The part of an address that the index register contributes. -/
def Registers.scaled (registers : Registers) (index : Option (UInt8 × UInt8)) :
    UInt32 :=
  index.elim 0 fun (number, scale) =>
    UInt32.ofNat ((registers.contents number 4).toNat * Nat.pow 2 scale.toNat)

namespace Pass

/-- The pass after a register was loaded into the address cell. -/
def addressRegisterLoaded (pass : Pass) (number : UInt8) : Pass :=
  let context := pass.decoder.context
  let value := pass.machine.registers.contents number 4
  { pass with
    machine := pass.machine.recordAll [.loadRegister number 4]
    decoder := { pass.decoder with
      context := { context with scratch := { context.scratch with address := value } } } }

def indexLoaded (pass : Pass) (index : Option (UInt8 × UInt8)) : Pass :=
  index.elim pass fun (number, _) => pass.addressRegisterLoaded number

def baseLoaded (pass : Pass) (base : Option UInt8) : Pass :=
  base.elim pass pass.addressRegisterLoaded

/-- The pass after the address of an encoding was computed. -/
def located (pass : Pass) (encoding : Addressing) : Pass :=
  ((pass.indexLoaded encoding.index).baseLoaded encoding.base).skip encoding.tail.length

@[simp] theorem registers_indexLoaded (pass : Pass) (index : Option (UInt8 × UInt8)) :
    (pass.indexLoaded index).machine.registers = pass.machine.registers := by
  cases index <;> rfl

theorem skip_indexLoaded (pass : Pass) (count : Nat) (index : Option (UInt8 × UInt8)) :
    (pass.skip count).indexLoaded index = (pass.indexLoaded index).skip count := by
  cases index <;> rfl

theorem skip_baseLoaded (pass : Pass) (count : Nat) (base : Option UInt8) :
    (pass.skip count).baseLoaded base = (pass.baseLoaded base).skip count := by
  cases base <;> rfl

@[simp] theorem stream_indexLoaded (pass : Pass) (index : Option (UInt8 × UInt8)) :
    (pass.indexLoaded index).stream = pass.stream := by
  cases index <;> rfl

@[simp] theorem stream_baseLoaded (pass : Pass) (base : Option UInt8) :
    (pass.baseLoaded base).stream = pass.stream := by
  cases base <;> rfl

theorem loadAddressRegister_eq (pass : Pass) (number : UInt8) :
    loadAddressRegister number pass =
      .ok (pass.machine.registers.contents number 4) (pass.addressRegisterLoaded number) :=
  bind_of_ok (transfer_loadRegister_ok_iff.mpr ⟨.inr (.inr rfl), rfl, rfl⟩)

theorem scaledIndex_eq (pass : Pass) (byte : UInt8) :
    scaledIndex (Sib.ofByte byte) pass =
      .ok (pass.machine.registers.scaled (Sib.ofByte byte).scaledRegister)
        (pass.indexLoaded (Sib.ofByte byte).scaledRegister) := by
  by_cases none : (Sib.ofByte byte).index = 4
  · have register : (Sib.ofByte byte).scaledRegister = .none := if_pos none
    have body : scaledIndex (Sib.ofByte byte) = pure 0 := if_pos none
    rw [body, register]
    rfl
  · have register : (Sib.ofByte byte).scaledRegister =
        some ((Sib.ofByte byte).index, (Sib.ofByte byte).scale) := if_neg none
    have body : scaledIndex (Sib.ofByte byte) = (do
        let value ← loadAddressRegister (Sib.ofByte byte).index
        return value <<< (Sib.ofByte byte).scale.toUInt32) := if_neg none
    rw [body, register, bind_of_ok (loadAddressRegister_eq pass _)]
    exact congrArg (EStateM.Result.ok · _) (scaled_eq _ byte)

theorem displacementWord_of_length {bytes : List UInt8} (length : bytes.length = 4) :
    displacementWord bytes = LittleEndian.ofBytes bytes := by
  unfold displacementWord
  split
  · simp at length
  · rw [← LittleEndian.toNat_ofBytes _ (Nat.le_of_eq length), UInt32.ofNat_toNat]

/-- The displacement that a ModR/M byte calls for is read from the next bytes. -/
theorem displacement_eq (pass : Pass) (modRm : ModRm) (bytes : List UInt8)
    (length : bytes.length = modRm.displacementSize.length) (holds : pass.stream.Holds bytes) :
    ∃ found : Displacement, displacement modRm pass = .ok found (pass.skip bytes.length) ∧
      found.word = displacementWord bytes := by
  unfold displacement
  cases size : modRm.displacementSize with
  | none =>
      rw [size, DisplacementSize.length, List.length_eq_zero_iff] at length
      subst length
      exact ⟨.none, by rw [List.length_nil, skip_zero]; rfl, rfl⟩
  | byte =>
      rw [size, DisplacementSize.length, List.length_eq_one_iff] at length
      obtain ⟨byte, rfl⟩ := length
      exact ⟨.byte byte.toInt8, bind_of_ok (fetchByte_eq holds), signedByte_eq byte⟩
  | dword =>
      rw [size, DisplacementSize.length] at length
      have word := displacementWord_of_length length
      refine ⟨.dword (LittleEndian.ofBytes bytes).toInt32, ?_, ?_⟩
      · exact bind_of_ok (fetch_eq (.inr (.inr rfl)) length holds)
      · rw [word]
        rfl

theorem holds_of_displacement_ok {pass after : Pass} {modRm : ModRm} {found : Displacement}
    (ran : displacement modRm pass = .ok found after) :
    ∃ bytes : List UInt8, bytes.length = modRm.displacementSize.length ∧
      pass.stream.Holds bytes := by
  unfold displacement at ran
  cases size : modRm.displacementSize with
  | none => exact ⟨[], rfl, Stream.holds_nil⟩
  | byte =>
      simp only [size, bind_ok_iff, fetchByte_ok_iff] at ran
      obtain ⟨byte, -, ⟨mapped, -⟩, -⟩ := ran
      exact ⟨[byte], rfl, Stream.holds_cons.mpr ⟨mapped, Stream.holds_nil⟩⟩
  | dword =>
      simp only [size, bind_ok_iff, fetch_ok_iff] at ran
      obtain ⟨-, -, ⟨-, bytes, length, holds, -, -⟩, -⟩ := ran
      exact ⟨bytes, length, holds⟩

end Pass

/-- Where the SIB byte does not put a displacement in the place of the base, the ModR/M byte alone
decides on the displacement. -/
theorem displacementLength_eq (modRm : ModRm) (sib : Option UInt8) :
    displacementLength modRm sib =
      if sib.any fun byte => (Sib.ofByte byte).replacesBase modRm then 4
      else modRm.displacementSize.length := by
  unfold displacementLength ModRm.displacementSize ModRm.isDisplacementOnly Sib.replacesBase
    Register.basePointer
  rcases modRm.mode_cases with mode | mode | mode | mode
  · cases sib with
    | none => by_cases rm : modRm.rm = 5 <;> simp [mode, rm, DisplacementSize.length]
    | some byte =>
        by_cases rm : modRm.rm = 5 <;> by_cases base : (Sib.ofByte byte).base = 5 <;>
          simp [mode, rm, base, DisplacementSize.length]
  all_goals cases sib <;> simp [mode, DisplacementSize.length]

theorem Addressing.address_eq (encoding : Addressing) (registers : Registers) :
    encoding.address registers =
      (encoding.base.elim 0 fun number => registers.contents number 4) +
        registers.scaled encoding.index + displacementWord encoding.displacement := by
  unfold address form AddressForm.sum Registers.scaled
  rw [UInt32.ofNat_add, UInt32.ofNat_add]
  cases encoding.base <;> cases encoding.index <;> simp

namespace Pass

theorem addressBase_of_none (pass : Pass) {encoding : Addressing}
    (memory : encoding.modRm.isMemory = true) (plain : encoding.sib = none) :
    addressBase encoding.modRm pass =
      .ok (encoding.base.elim 0 fun number => pass.machine.registers.contents number 4)
        (pass.baseLoaded encoding.base) := by
  have noSib : encoding.modRm.hasSib = false := by rw [← encoding.isSome_sib, plain]; rfl
  by_cases only : encoding.modRm.mode = 0 ∧ encoding.modRm.rm = 5
  · have base : encoding.base = none := by simp [Addressing.base, plain, only]
    have noBase : encoding.modRm.hasBase = false := by
      simp [ModRm.hasBase, ModRm.isDisplacementOnly, Register.basePointer, only]
    have body : addressBase encoding.modRm = pure 0 := by simp [addressBase, noSib, noBase]
    rw [body, base]
    rfl
  · have base : encoding.base = some encoding.modRm.rm := by simp [Addressing.base, plain, only]
    have notOnly : encoding.modRm.isDisplacementOnly = false := by
      simpa [ModRm.isDisplacementOnly, Register.basePointer] using only
    have hasBase : encoding.modRm.hasBase = true := by
      simp [ModRm.hasBase, memory, noSib, notOnly]
    have body : addressBase encoding.modRm = loadAddressRegister encoding.modRm.rm := by
      simp [addressBase, noSib, hasBase]
    rw [body, base, loadAddressRegister_eq]
    rfl

theorem effectiveAddress_of_none {pass : Pass} {encoding : Addressing}
    (memory : encoding.modRm.isMemory = true) (plain : encoding.sib = none)
    (holds : pass.stream.Holds encoding.displacement) :
    effectiveAddress encoding.modRm pass =
      .ok (encoding.address pass.machine.registers) (pass.located encoding) := by
  have length : encoding.displacement.length = encoding.modRm.displacementSize.length := by
    rw [encoding.length_displacement, displacementLength_eq, plain]
    rfl
  have index : encoding.index = none := by rw [Addressing.index, plain]; rfl
  obtain ⟨found, read, word⟩ := displacement_eq (pass.baseLoaded encoding.base) _ _ length
    (by rw [stream_baseLoaded]; exact holds)
  unfold effectiveAddress
  rw [bind_of_ok (addressBase_of_none pass memory plain), bind_of_ok read, word,
    Addressing.address_eq, index, located, index, Addressing.tail, plain]
  simp [Registers.scaled, indexLoaded]
  rfl

/-- With a SIB byte the scaled index is found first, then the base. -/
theorem addressBase_of_some {pass after : Pass} {encoding : Addressing} {byte : UInt8}
    {base : UInt32} (indexed : encoding.sib = some byte)
    (mapped : pass.stream.byteAt? pass.stream.cursor = some byte)
    (based : sibBase encoding.modRm (Sib.ofByte byte) ((pass.skip 1).indexLoaded encoding.index) =
      .ok base after) :
    addressBase encoding.modRm pass =
      .ok (pass.machine.registers.scaled encoding.index + base) after := by
  have hasSib : encoding.modRm.hasSib = true := by rw [← encoding.isSome_sib, indexed]; rfl
  have index : encoding.index = (Sib.ofByte byte).scaledRegister := by
    rw [Addressing.index, indexed]; rfl
  have body : addressBase encoding.modRm = (do
      let byte ← fetchByte
      let sib := Sib.ofByte byte
      let index ← scaledIndex sib
      let base ← sibBase encoding.modRm sib
      return index + base) := if_pos hasSib
  rw [index] at based
  rw [body, bind_of_ok (fetchByte_ok_iff.mpr ⟨mapped, rfl⟩),
    bind_of_ok (scaledIndex_eq (pass.skip 1) byte), bind_of_ok based, index]
  rfl

theorem effectiveAddress_of_some {pass : Pass} {encoding : Addressing} {byte : UInt8}
    (indexed : encoding.sib = some byte)
    (holds : pass.stream.Holds (byte :: encoding.displacement)) :
    effectiveAddress encoding.modRm pass =
      .ok (encoding.address pass.machine.registers) (pass.located encoding) := by
  obtain ⟨mapped, rest⟩ := Stream.holds_cons.mp holds
  have hasSib : encoding.modRm.hasSib = true := by rw [← encoding.isSome_sib, indexed]; rfl
  have rm : encoding.modRm.rm = 4 := by simpa using (Bool.and_eq_true_iff.mp hasSib).2
  have length := encoding.length_displacement
  rw [displacementLength_eq, indexed] at length
  have tailLength : encoding.tail.length = 1 + encoding.displacement.length := by
    rw [Addressing.tail, indexed]
    simp [Nat.add_comm]
  have located_eq : pass.located encoding =
      (((pass.skip 1).indexLoaded encoding.index).baseLoaded encoding.base).skip
        encoding.displacement.length := by
    rw [skip_indexLoaded, skip_baseLoaded, skip_skip, ← tailLength]
    rfl
  unfold effectiveAddress
  rw [located_eq, Addressing.address_eq]
  by_cases replaced : (Sib.ofByte byte).replacesBase encoding.modRm = true
  · -- The displacement is fetched as the base, and none is left to fetch afterwards.
    have fields : (Sib.ofByte byte).base = 5 ∧ encoding.modRm.mode = 0 := by
      simpa [Sib.replacesBase, Register.basePointer] using replaced
    have base : encoding.base = none := by simp [Addressing.base, indexed, fields]
    have four : encoding.displacement.length = 4 := by rw [length]; exact if_pos replaced
    have size : encoding.modRm.displacementSize = .none := by
      simp [ModRm.displacementSize, ModRm.isDisplacementOnly, Register.basePointer, fields, rm]
    have isFetch : sibBase encoding.modRm (Sib.ofByte byte) = fetch 4 := if_pos replaced
    have based := addressBase_of_some indexed mapped (by
      rw [isFetch]
      exact fetch_eq (.inr (.inr rfl)) four (by rw [stream_indexLoaded]; exact rest))
    obtain ⟨found, read, word⟩ := displacement_eq
      (((pass.skip 1).indexLoaded encoding.index).skip encoding.displacement.length)
      encoding.modRm [] (by rw [size]; rfl) Stream.holds_nil
    rw [bind_of_ok based, bind_of_ok read, word, base, displacementWord_of_length four]
    simp [baseLoaded, displacementWord, LittleEndian.number]
    rfl
  · have base : encoding.base = some (Sib.ofByte byte).base := by
      have notBoth : ¬(encoding.modRm.mode = 0 ∧ (Sib.ofByte byte).base = 5) := by
        intro both
        simp [Sib.replacesBase, Register.basePointer, both] at replaced
      simp [Addressing.base, indexed, notBoth]
    have isLoad : sibBase encoding.modRm (Sib.ofByte byte) =
        loadAddressRegister (Sib.ofByte byte).base := if_neg replaced
    have loaded : sibBase encoding.modRm (Sib.ofByte byte)
        ((pass.skip 1).indexLoaded encoding.index) =
          .ok (pass.machine.registers.contents (Sib.ofByte byte).base 4)
            (((pass.skip 1).indexLoaded encoding.index).baseLoaded encoding.base) := by
      rw [isLoad, loadAddressRegister_eq, registers_indexLoaded, base]
      rfl
    obtain ⟨found, read, word⟩ := displacement_eq
      (((pass.skip 1).indexLoaded encoding.index).baseLoaded encoding.base)
      encoding.modRm encoding.displacement (by rw [length]; exact if_neg replaced)
      (by rw [stream_baseLoaded, stream_indexLoaded]; exact rest)
    rw [bind_of_ok (addressBase_of_some indexed mapped loaded), bind_of_ok read, word, base]
    simp [UInt32.add_comm]
    rfl

/-- The address of a memory encoding is computed from the bytes of that encoding. -/
theorem effectiveAddress_eq {pass : Pass} {encoding : Addressing}
    (memory : encoding.modRm.isMemory = true) (holds : pass.stream.Holds encoding.tail) :
    effectiveAddress encoding.modRm pass =
      .ok (encoding.address pass.machine.registers) (pass.located encoding) := by
  unfold Addressing.tail at holds
  cases sib : encoding.sib with
  | none =>
      rw [sib] at holds
      exact effectiveAddress_of_none memory sib holds
  | some byte =>
      rw [sib] at holds
      exact effectiveAddress_of_some sib holds

/-! ## Every computed address has an encoding -/

theorem stream_of_loadAddressRegister_ok {pass after : Pass} {number : UInt8} {value : UInt32}
    (ran : loadAddressRegister number pass = .ok value after) : after.stream = pass.stream := by
  rw [loadAddressRegister_eq] at ran
  rw [← (EStateM.Result.ok.inj ran).2]
  rfl

theorem stream_of_addressBase_ok {pass after : Pass} {modRm : ModRm} {base : UInt32}
    (plain : modRm.hasSib = false) (ran : addressBase modRm pass = .ok base after) :
    after.stream = pass.stream := by
  unfold addressBase at ran
  rw [plain] at ran
  by_cases hasBase : modRm.hasBase = true
  · simp only [hasBase, Bool.false_eq_true, if_true, if_false] at ran
    exact stream_of_loadAddressRegister_ok ran
  · simp only [hasBase, Bool.false_eq_true, if_false, pure_ok_iff] at ran
    rw [ran.2]

/-- A computed address was computed from bytes that stand after the ModR/M byte and make it a
complete encoding. -/
theorem exists_tail_of_effectiveAddress_ok {pass after : Pass} {modRm : ModRm} {address : UInt32}
    (ran : effectiveAddress modRm pass = .ok address after) :
    ∃ encoding : Addressing, encoding.modRm = modRm ∧ pass.stream.Holds encoding.tail := by
  unfold effectiveAddress at ran
  obtain ⟨base, based, baseRan, rest⟩ := bind_ok_iff.mp ran
  obtain ⟨found, _, read, -⟩ := bind_ok_iff.mp rest
  obtain ⟨bytes, length, holds⟩ := holds_of_displacement_ok read
  by_cases plain : modRm.hasSib = true
  · have body : addressBase modRm = (do
        let byte ← fetchByte
        let sib := Sib.ofByte byte
        let index ← scaledIndex sib
        let base ← sibBase modRm sib
        return index + base) := if_pos plain
    rw [body] at baseRan
    simp only [bind_ok_iff, fetchByte_ok_iff, scaledIndex_eq, pure_ok_iff,
      EStateM.Result.ok.injEq] at baseRan
    obtain ⟨byte, _, ⟨mapped, rfl⟩, _, _, ⟨-, rfl⟩, word, _, sibRan, -, rfl⟩ := baseRan
    by_cases replaced : (Sib.ofByte byte).replacesBase modRm = true
    · have isFetch : sibBase modRm (Sib.ofByte byte) = fetch 4 := if_pos replaced
      rw [isFetch] at sibRan
      obtain ⟨-, word, four, wordHolds, -, -⟩ := fetch_ok_iff.mp sibRan
      refine ⟨⟨modRm, some byte, word, by rw [plain]; rfl, ?_⟩, rfl, ?_⟩
      · rw [displacementLength_eq, four]
        exact (if_pos replaced).symm
      · rw [stream_indexLoaded] at wordHolds
        exact Stream.holds_cons.mpr ⟨mapped, wordHolds⟩
    · have isLoad : sibBase modRm (Sib.ofByte byte) =
          loadAddressRegister (Sib.ofByte byte).base := if_neg replaced
      rw [isLoad] at sibRan
      refine ⟨⟨modRm, some byte, bytes, by rw [plain]; rfl, ?_⟩, rfl, ?_⟩
      · rw [displacementLength_eq, length]
        exact (if_neg replaced).symm
      · rw [stream_of_loadAddressRegister_ok sibRan, stream_indexLoaded] at holds
        exact Stream.holds_cons.mpr ⟨mapped, holds⟩
  · rw [Bool.not_eq_true] at plain
    refine ⟨⟨modRm, none, bytes, by rw [plain]; rfl, ?_⟩, rfl, ?_⟩
    · rw [displacementLength_eq, length]
      rfl
    · rw [stream_of_addressBase_ok plain baseRan] at holds
      exact holds

end Pass

end I386
