import I386.Proofs.Resolution

/-!
Contract: what the decoding of operands is put together from.

Owns:
- loads, which are the only transfers among it;
- pairs of computations that are put together in the same way from fetching bytes, loads, the
  address cell, slots, the look at a ModR/M byte and the resolving of a branch;
- composed computations, which pair with themselves: every part of resolving an operand is
  composed, and so is every step of an operand pattern.

What holds of the parts, and of two computations one after the other, holds of all steps by
induction on how they are put together. Two machines may hold different things, so the two sides of
a pair load different values; a computation by itself is the case of equal sides.

Does not own: what any such induction proves.
-/

namespace I386

/-! ## Loads -/

namespace MicroOp

def readsMemory : MicroOp → Bool
  | loadMemory _ _ => true
  | _ => false

/-- A transfer that brings a value and stores nothing. -/
def IsLoad : MicroOp → Prop
  | loadImmediate _ => True
  | loadRegister _ _ => True
  | loadMemory _ _ => True
  | storeRegister _ _ _ => False
  | storeMemory _ _ _ => False

/-- A load, at a width that registers and memory have. -/
def Loads : MicroOp → Prop
  | loadImmediate _ => True
  | loadRegister _ width => ValidWidth width
  | loadMemory _ width => ValidWidth width
  | storeRegister _ _ _ => False
  | storeMemory _ _ _ => False

theorem Loads.isLoad {op : MicroOp} (loads : op.Loads) : op.IsLoad := by
  cases op with
  | storeRegister number width value => exact loads.elim
  | storeMemory address width value => exact loads.elim
  | _ => trivial

/-- The value that a transfer brings or carries, if its width is one that the machine has. -/
def held (op : MicroOp) (registers : Registers) (memory : Memory) : Except Violation UInt32 :=
  match op with
  | loadImmediate value => .ok value
  | loadRegister number width => registers.read number width
  | loadMemory address width => memory.read address width
  | storeRegister _ _ value => .ok value
  | storeMemory _ _ value => .ok value

theorem exists_held_of_loads {op : MicroOp} (loads : op.Loads) (registers : Registers)
    (memory : Memory) : ∃ value, op.held registers memory = .ok value := by
  cases op with
  | loadImmediate value => exact ⟨value, rfl⟩
  | loadRegister number width => exact ⟨_, Registers.read_ok_iff.mpr ⟨loads, rfl⟩⟩
  | loadMemory address width => exact ⟨_, Memory.read_ok_iff.mpr ⟨loads, rfl⟩⟩
  | storeRegister number width value => exact loads.elim
  | storeMemory address width value => exact loads.elim

/-- The transfer without what the machine supplied for it. -/
def outline : MicroOp → MicroOp
  | loadImmediate _ => loadImmediate 0
  | loadRegister number width => loadRegister number width
  | loadMemory _ width => loadMemory 0 width
  | storeRegister number width _ => storeRegister number width 0
  | storeMemory _ width _ => storeMemory 0 width 0

theorem isLoad_outline {op : MicroOp} : op.outline.IsLoad ↔ op.IsLoad := by
  cases op <;> exact Iff.rfl

end MicroOp

theorem Pass.transfer_of_isLoad {op : MicroOp} (isLoad : op.IsLoad) (pass : Pass) :
    transfer op pass =
      (pass.recordAll [op]).loaded (op.held pass.machine.registers pass.machine.memory) := by
  cases op with
  | loadImmediate value => exact transfer_loadImmediate pass value
  | loadRegister number width => exact transfer_loadRegister pass number width
  | loadMemory address width => exact transfer_loadMemory pass address width
  | storeRegister number width value => exact isLoad.elim
  | storeMemory address width value => exact isLoad.elim

/-! ## Pairs of computations -/

/-- What later steps take from an operand. -/
def Operand.designation (operand : Operand) : UInt8 × UInt8 × UInt32 :=
  (operand.width, operand.number, operand.address)

/-- Operands that agree in what later steps take from them, but for addresses if the registers that
these come from may differ. -/
structure Operand.Alike (exact : Prop) (first second : Operand) : Prop where
  width : second.width = first.width
  number : second.number = first.number
  address : exact → second.address = first.address

theorem Operand.Alike.refl (exact : Prop) (operand : Operand) : operand.Alike exact operand :=
  ⟨rfl, rfl, fun _ => rfl⟩

/-- What computations may be put together from, and what is known where they run. -/
structure Rules where
  /-- Slots may be looked at and changed. -/
  slots : Prop
  /-- Widths found in slots are valid, and those left there are. -/
  valid : Prop
  /-- Memory may be read. -/
  reads : Prop
  /-- A ModR/M byte may be looked at, and refused. -/
  looks : Prop
  /-- A branch may be resolved. -/
  branches : Prop
  /-- The registers of the two machines hold the same. -/
  exact : Prop

/-- Everything is allowed, at widths that need not be valid. -/
def Rules.lenient : Rules where
  slots := True
  valid := False
  reads := True
  looks := True
  branches := True
  exact := True

/-- Everything is allowed, at valid widths. -/
def Rules.sized : Rules :=
  { Rules.lenient with valid := True }

/-- A load and its counterpart on the other machine. -/
structure LoadsAlike (rules : Rules) (op other : MicroOp) : Prop where
  isLoad : op.IsLoad
  outline : other.outline = op.outline
  same : rules.exact → other = op
  sized : rules.valid → op.Loads
  reads : op.readsMemory = true → rules.reads

namespace Pass

/-- The opcode of the instruction that has begun. -/
def currentOpcode : PassM UInt8 := fun pass =>
  .ok pass.decoder.context.opcode pass

/-- Put a value into the address cell. -/
def setAddressCell (value : UInt32) : PassM Unit :=
  modifyContext fun context => { context with scratch := { context.scratch with address := value } }

/-- Two computations put together in the same way from what decoding operands takes. Their values
are the same if `certain`. -/
inductive Paired (rules : Rules) : {α : Type} → Prop → PassM α → PassM α → Prop where
  | pure {α : Type} {certain : Prop} {value other : α} (same : certain → other = value) :
      Paired rules certain (pure value) (pure other)
  | violate {α : Type} {certain : Prop} (lenient : ¬rules.valid) (violation : Violation) :
      Paired rules certain (violate violation : PassM α) (violate violation)
  | fetchByte {certain : Prop} : Paired rules certain fetchByte fetchByte
  | load {certain : Prop} {op other : MicroOp} (alike : LoadsAlike rules op other)
      (known : certain → rules.exact ∧ op.readsMemory = false) :
      Paired rules certain (transfer op) (transfer other)
  | setAddressCell {certain : Prop} (value other : UInt32) :
      Paired rules certain (setAddressCell value) (setAddressCell other)
  | currentOpcode {certain : Prop} : Paired rules certain currentOpcode currentOpcode
  | modifyOperand {certain : Prop} (free : rules.slots) (slot : Slot)
      {change other : Operand → Operand}
      (alike : ∀ {operand found : Operand}, operand.Alike rules.exact found →
        (change operand).Alike rules.exact (other found))
      (keeps : rules.valid → ∀ operand, ValidWidth operand.width →
        ValidWidth (change operand).width) :
      Paired rules certain (modifyOperand slot change) (modifyOperand slot other)
  | requireMemory {certain : Prop} (looks : rules.looks) :
      Paired rules certain requireMemory requireMemory
  | resolveBranch {certain : Prop} (free : rules.slots) (isBranch : rules.branches) :
      Paired rules certain resolveBranch resolveBranch
  | withOperand {α : Type} {certain : Prop} (free : rules.slots) (slot : Slot)
      {next other : Operand → PassM α}
      (rest : ∀ operand found, operand.Alike rules.exact found →
        (rules.valid → ValidWidth operand.width) →
        Paired rules certain (next operand) (other found)) :
      Paired rules certain (operand slot >>= next) (operand slot >>= other)
  | bind {α β : Type} {sure certain : Prop} {first second : PassM α} {next other : α → PassM β}
      (one : Paired rules sure first second)
      (rest : ∀ value found, (sure → found = value) →
        Paired rules certain (next value) (other found)) :
      Paired rules certain (first >>= next) (second >>= other)

/-- A computation that is put together from what decoding operands takes. -/
def Composed (rules : Rules) {α : Type} (action : PassM α) : Prop :=
  Paired rules True action action

section Paired

variable {rules : Rules} {certain : Prop} {α β : Type}

theorem Paired.ite {condition : Prop} [Decidable condition] {yes no otherYes otherNo : PassM α}
    (ofYes : condition → Paired rules certain yes otherYes)
    (ofNo : Paired rules certain no otherNo) :
    Paired rules certain (if condition then yes else no)
      (if condition then otherYes else otherNo) := by
  by_cases holds : condition
  · rw [if_pos holds, if_pos holds]
    exact ofYes holds
  · rwa [if_neg holds, if_neg holds]

/-- What follows a composed computation starts from the same value on both sides. -/
theorem Composed.bind {first : PassM α} {next other : α → PassM β} (one : Composed rules first)
    (rest : ∀ value, Paired rules certain (next value) (other value)) :
    Paired rules certain (first >>= next) (first >>= other) :=
  Paired.bind one fun value _ same => same trivial ▸ rest value

/-! ## Reading the stream -/

theorem onStream_bind (first : EStateM Fault Stream α) (next : α → EStateM Fault Stream β) :
    onStream (first >>= next) = onStream first >>= fun value => onStream (next value) := by
  funext pass
  cases ran : first pass.stream with
  | ok value between =>
      have lifted : onStream first pass = .ok value { pass with stream := between } := by
        unfold onStream
        rw [ran]
      rw [bind_of_ok lifted]
      unfold onStream
      rw [bind_of_ok ran]
  | error fault failed =>
      have lifted : onStream first pass = .error fault { pass with stream := failed } := by
        unfold onStream
        rw [ran]
      rw [bind_of_error lifted]
      unfold onStream
      rw [bind_of_error ran]

theorem composed_fetchByte : Composed rules fetchByte :=
  Paired.fetchByte

theorem composed_fetchBytes (count : Nat) :
    Composed rules (onStream (Stream.fetchBytes count)) := by
  induction count with
  | zero => exact Paired.pure fun _ => rfl
  | succ count inductionHypothesis =>
      rw [Stream.fetchBytes, onStream_bind]
      apply composed_fetchByte.bind
      intro byte
      rw [onStream_bind]
      exact inductionHypothesis.bind fun _ => .pure fun _ => rfl

theorem composed_fetch {width : UInt8} (sized : rules.valid → ValidWidth width) :
    Composed rules (fetch width) := by
  by_cases valid : ValidWidth width
  · have body : Stream.fetch width = (do
        let bytes ← Stream.fetchBytes width.toNat
        return LittleEndian.ofBytes bytes) := if_pos valid
    rw [fetch, body, onStream_bind]
    exact (composed_fetchBytes _).bind fun _ => .pure fun _ => rfl
  · have body : Stream.fetch width = throw (.violation (.fetchWidth width)) := if_neg valid
    rw [fetch, body]
    exact Paired.violate (fun isValid => valid (sized isValid)) (.fetchWidth width)

theorem composed_fetch_dword : Composed rules (fetch 4) :=
  composed_fetch fun _ => .inr (.inr rfl)

/-! ## Loads -/

theorem paired_loadImmediate {value other : UInt32} (same : rules.exact → other = value) :
    Paired rules rules.exact (transfer (.loadImmediate value)) (transfer (.loadImmediate other)) :=
  .load ⟨trivial, rfl, fun isExact => congrArg _ (same isExact), fun _ => trivial, nofun⟩
    fun isExact => ⟨isExact, rfl⟩

theorem paired_loadRegister (number : UInt8) {width : UInt8}
    (sized : rules.valid → ValidWidth width) :
    Paired rules rules.exact (transfer (.loadRegister number width))
      (transfer (.loadRegister number width)) :=
  .load ⟨trivial, rfl, fun _ => rfl, sized, nofun⟩ fun isExact => ⟨isExact, rfl⟩

/-- Memory may hold anything, so nothing is known of the values. -/
theorem paired_loadMemory {address other : UInt32} {width : UInt8}
    (same : rules.exact → other = address) (sized : rules.valid → ValidWidth width)
    (isRead : rules.reads) :
    Paired rules False (transfer (.loadMemory address width))
      (transfer (.loadMemory other width)) :=
  .load ⟨trivial, rfl, fun isExact => same isExact ▸ rfl, sized, fun _ => isRead⟩ False.elim

/-! ## Addresses -/

theorem composed_displacement (modRm : ModRm) : Composed rules (displacement modRm) := by
  unfold displacement
  cases modRm.displacementSize with
  | none => exact Paired.pure fun _ => rfl
  | byte => exact composed_fetchByte.bind fun _ => .pure fun _ => rfl
  | dword => exact composed_fetch_dword.bind fun _ => .pure fun _ => rfl

theorem paired_loadAddressRegister (number : UInt8) :
    Paired rules rules.exact (loadAddressRegister number) (loadAddressRegister number) := by
  apply (paired_loadRegister number fun _ => .inr (.inr rfl)).bind
  intro value other same
  have cell : Paired rules True (setAddressCell value) (setAddressCell other) :=
    .setAddressCell value other
  exact cell.bind fun _ _ _ => .pure same

theorem paired_scaledIndex (sib : Sib) :
    Paired rules rules.exact (scaledIndex sib) (scaledIndex sib) := by
  apply Paired.ite
  · intro _
    exact .pure fun _ => rfl
  · apply (paired_loadAddressRegister sib.index).bind
    intro value other same
    exact .pure fun isExact => by rw [same isExact]

theorem paired_sibBase (modRm : ModRm) (sib : Sib) :
    Paired rules rules.exact (sibBase modRm sib) (sibBase modRm sib) := by
  refine .ite (fun _ => ?_) (paired_loadAddressRegister sib.base)
  rw [← bind_pure (fetch 4)]
  exact composed_fetch_dword.bind fun _ => .pure fun _ => rfl

theorem paired_addressBase (modRm : ModRm) :
    Paired rules rules.exact (addressBase modRm) (addressBase modRm) := by
  apply Paired.ite
  · intro _
    apply composed_fetchByte.bind
    intro byte
    apply (paired_scaledIndex (Sib.ofByte byte)).bind
    intro index otherIndex sameIndex
    apply (paired_sibBase modRm (Sib.ofByte byte)).bind
    intro base otherBase sameBase
    exact .pure fun isExact => by rw [sameIndex isExact, sameBase isExact]
  · exact .ite (fun _ => paired_loadAddressRegister modRm.rm) (.pure fun _ => rfl)

/-- Addresses are computed without slots, and two of them agree if the registers do. -/
theorem paired_effectiveAddress (modRm : ModRm) :
    Paired rules rules.exact (effectiveAddress modRm) (effectiveAddress modRm) := by
  apply (paired_addressBase modRm).bind
  intro base other same
  exact (composed_displacement modRm).bind fun displacement =>
    .pure fun isExact => by rw [same isExact]

/-! ## Operands -/

variable (free : rules.slots)

include free

/-- A change of a slot on both sides that does not touch its width. -/
theorem paired_modifyOperand (slot : Slot) {change other : Operand → Operand}
    (alike : ∀ {operand found : Operand}, operand.Alike rules.exact found →
      (change operand).Alike rules.exact (other found))
    (same : ∀ operand, (change operand).width = operand.width) :
    Paired rules certain (modifyOperand slot change) (modifyOperand slot other) :=
  .modifyOperand free slot alike fun _ operand valid => (same operand).symm ▸ valid

/-- Changes of a slot that leave what it designates. -/
theorem paired_annotate (slot : Slot) {change other : Operand → Operand}
    (kept : ∀ operand, (change operand).designation = operand.designation)
    (otherKept : ∀ operand, (other operand).designation = operand.designation) :
    Paired rules certain (modifyOperand slot change) (modifyOperand slot other) := by
  refine paired_modifyOperand free slot ?_ fun operand => congrArg Prod.fst (kept operand)
  intro operand found alike
  obtain ⟨width, rest⟩ := Prod.mk.inj (kept operand)
  obtain ⟨number, address⟩ := Prod.mk.inj rest
  obtain ⟨otherWidth, otherRest⟩ := Prod.mk.inj (otherKept found)
  obtain ⟨otherNumber, otherAddress⟩ := Prod.mk.inj otherRest
  refine ⟨?_, ?_, fun isExact => ?_⟩
  · rw [otherWidth, width, alike.width]
  · rw [otherNumber, number, alike.number]
  · rw [otherAddress, address, alike.address isExact]

theorem composed_stageRegister (slot : Slot) : Composed rules (stageRegister slot) := by
  apply Paired.withOperand free slot
  intro operand found alike sized
  rw [alike.number, alike.width]
  apply (paired_loadRegister operand.number sized).bind
  intro value other _
  exact paired_annotate free slot (fun _ => rfl) fun _ => rfl

theorem composed_stageMemory (slot : Slot) (isRead : rules.reads) :
    Composed rules (stageMemory slot) := by
  apply Paired.withOperand free slot
  intro operand found alike sized
  rw [alike.width]
  apply (paired_loadMemory alike.address sized isRead).bind
  intro value other _
  exact paired_annotate free slot (fun _ => rfl) fun _ => rfl

theorem paired_stageAddress (slot : Slot) {address other : UInt32}
    (same : rules.exact → other = address) :
    Paired rules certain (stageAddress slot address) (stageAddress slot other) := by
  apply (paired_loadImmediate same).bind
  intro value found staged
  exact paired_modifyOperand free slot (fun alike => ⟨alike.width, alike.number, staged⟩)
    fun _ => rfl

theorem composed_stageImmediate (slot : Slot) (value : UInt32) :
    Composed rules (stageImmediate slot value) := by
  apply (paired_loadImmediate fun _ => rfl).bind
  intro staged other _
  exact paired_annotate free slot (fun _ => rfl) fun _ => rfl

theorem composed_fillRegister (slot : Slot) (number : UInt8) (load : Bool) :
    Composed rules (fillRegister slot number load) := by
  have named : Composed rules
      (modifyOperand slot fun operand => { operand with kind := .register, number }) :=
    paired_modifyOperand free slot (fun alike => ⟨alike.width, rfl, alike.address⟩) fun _ => rfl
  exact named.bind fun _ => .ite (fun _ => composed_stageRegister free slot) (.pure fun _ => rfl)

theorem composed_operandResolution (modRm : ModRm) (slot : Slot) {load : Bool}
    (isRead : load = true → rules.reads) :
    Composed rules (operandResolution modRm slot load) := by
  apply Paired.ite
  · intro _
    apply (paired_effectiveAddress modRm).bind
    intro address other same
    have marked : Composed rules
        (modifyOperand slot fun operand => { operand with kind := .memory }) :=
      paired_annotate free slot (fun _ => rfl) fun _ => rfl
    have staged : Paired rules True (stageAddress slot address) (stageAddress slot other) :=
      paired_stageAddress free slot same
    refine marked.bind fun _ => staged.bind fun _ _ _ => ?_
    exact .ite (fun load => composed_stageMemory free slot (isRead load)) (.pure fun _ => rfl)
  · exact composed_fillRegister free slot modRm.rm load

theorem composed_resolve (slot : Slot) {load : Bool} (isRead : load = true → rules.reads)
    (field : Option (Slot × Bool)) : Composed rules (resolve slot load field) := by
  rw [resolve_eq]
  apply composed_fetchByte.bind
  intro byte
  have filled : Composed rules (field.elim (pure ()) fun target =>
      fillRegister target.1 (ModRm.mk byte).reg target.2) := by
    cases field with
    | none => exact Paired.pure fun _ => rfl
    | some target => exact composed_fillRegister free target.1 _ target.2
  refine filled.bind fun _ => ?_
  exact (composed_operandResolution free ⟨byte⟩ slot isRead).bind fun _ => .pure fun _ => rfl

theorem composed_fetchImmediate (slot : Slot) : Composed rules (fetchImmediate slot) := by
  have marked : Composed rules
      (modifyOperand slot fun operand => { operand with kind := .immediate }) :=
    paired_annotate free slot (fun _ => rfl) fun _ => rfl
  refine marked.bind fun _ => .withOperand free slot fun operand found alike sized => ?_
  rw [alike.width]
  apply (composed_fetch sized).bind
  intro immediate
  have noted : Composed rules (modifyOperand slot fun operand => { operand with immediate }) :=
    paired_annotate free slot (fun _ => rfl) fun _ => rfl
  exact noted.bind fun _ => .pure fun _ => rfl

theorem composed_fillImmediate (slot : Slot) : Composed rules (fillImmediate slot) :=
  (composed_fetchImmediate free slot).bind fun immediate =>
    composed_stageImmediate free slot immediate

/-- The end of filling a slot with a signed immediate. -/
theorem composed_stageSigned (slot : Slot) (extended : UInt32) :
    Composed rules (do
      modifyOperand slot fun operand => { operand with signedImmediate := extended.toInt32 }
      stageImmediate slot extended) := by
  have noted : Composed rules
      (modifyOperand slot fun operand => { operand with signedImmediate := extended.toInt32 }) :=
    paired_annotate free slot (fun _ => rfl) fun _ => rfl
  exact noted.bind fun _ => composed_stageImmediate free slot extended

theorem composed_fillSignedImmediate (lenient : ¬rules.valid) (slot : Slot) :
    Composed rules (fillSignedImmediate slot) := by
  apply Paired.withOperand free slot
  intro operand found alike _
  rw [alike.width]
  refine .ite (fun _ => ?_) (.violate lenient _)
  apply (composed_fetchImmediate free slot).bind
  intro immediate
  have extension : Composed rules (extended immediate operand.width) := by
    unfold extended
    cases I386.signExtend immediate operand.width with
    | ok extended => exact Paired.pure fun _ => rfl
    | error violation => exact Paired.violate lenient violation
  exact extension.bind fun extended => composed_stageSigned free slot extended

theorem composed_fillOffset (slot : Slot) {load : Bool} (isRead : load = true → rules.reads) :
    Composed rules (fillOffset slot load) := by
  have marked : Composed rules
      (modifyOperand slot fun operand => { operand with kind := .memory }) :=
    paired_annotate free slot (fun _ => rfl) fun _ => rfl
  refine marked.bind fun _ => composed_fetch_dword.bind fun offset => ?_
  have staged : Composed rules (stageAddress slot offset) :=
    paired_stageAddress free slot fun _ => rfl
  refine staged.bind fun _ => ?_
  exact .ite (fun load => composed_stageMemory free slot (isRead load)) (.pure fun _ => rfl)

theorem composed_resize (slot : Slot) {width : UInt8} (valid : ValidWidth width) :
    Composed rules (modifyOperand slot fun operand => { operand with width }) :=
  Paired.modifyOperand free slot (fun alike => ⟨rfl, alike.number, alike.address⟩)
    fun _ _ _ => valid

theorem composed_fillFixedRegister (slot : Slot) (number : UInt8) {width : UInt8}
    (valid : ValidWidth width) : Composed rules (fillFixedRegister slot number width) :=
  (composed_resize free slot valid).bind fun _ => composed_fillRegister free slot number true

theorem composed_fillOne (slot : Slot) : Composed rules (fillOne slot) := by
  have marked : Composed rules
      (modifyOperand slot fun operand => { operand with kind := .immediate, immediate := 1 }) :=
    paired_annotate free slot (fun _ => rfl) fun _ => rfl
  exact marked.bind fun _ => composed_stageImmediate free slot 1

theorem composed_requireWideDest (lenient : ¬rules.valid) : Composed rules requireWideDest := by
  apply Paired.withOperand free .dest
  intro dest found alike _
  rw [alike.width]
  exact .ite (fun _ => .violate lenient _) (.pure fun _ => rfl)

theorem composed_clipSource : Composed rules clipSource := by
  apply Paired.withOperand free .dest
  intro dest found alike _
  rw [alike.width]
  refine .ite (fun _ => ?_) (.pure fun _ => rfl)
  exact paired_annotate free .src (fun _ => rfl) fun _ => rfl

end Paired

end Pass

/-! ## Steps -/

namespace Step

/-- A step reads memory if its operand is there. -/
def loadsMemory : Step → Bool
  | modRm _ load _ => load
  | offset _ load => load
  | _ => false

/-- A step can break a contract even at valid widths. -/
def demandsWidth : Step → Bool
  | signedImmediate _ => true
  | requireWideDest => true
  | _ => false

/-- The rules allow all that a step is put together from. -/
structure Obeys (rules : Rules) (step : Step) : Prop where
  reads : step.loadsMemory = true → rules.reads
  looks : step = requireMemory → rules.looks
  branches : step = branchTarget → rules.branches
  lenient : step.demandsWidth = true → ¬rules.valid

section Composed

variable {rules : Rules} (free : rules.slots)

include free

theorem composed_run {step : Step} (obeys : step.Obeys rules) : Pass.Composed rules step.run := by
  obtain ⟨reads, looks, branches, lenient⟩ := obeys
  cases step with
  | modRm slot load field =>
      exact (Pass.composed_resolve free slot reads field).bind fun _ => .pure fun _ => rfl
  | requireMemory => exact Pass.Paired.requireMemory (looks rfl)
  | immediate slot => exact Pass.composed_fillImmediate free slot
  | signedImmediate slot => exact Pass.composed_fillSignedImmediate free (lenient rfl) slot
  | accumulator slot load => exact Pass.composed_fillRegister free slot _ load
  | opcodeRegister slot load =>
      have opcode : Pass.Composed rules Pass.currentOpcode := Pass.Paired.currentOpcode
      exact opcode.bind fun opcode => Pass.composed_fillRegister free slot (opcode &&& 7) load
  | offset slot load => exact Pass.composed_fillOffset free slot reads
  | cl slot => exact Pass.composed_fillFixedRegister free slot _ (.inl rfl)
  | dx slot => exact Pass.composed_fillFixedRegister free slot _ (.inr (.inl rfl))
  | one slot => exact Pass.composed_fillOne free slot
  | narrowToByte slot => exact Pass.composed_resize free slot (.inl rfl)
  | requireWideDest => exact Pass.composed_requireWideDest free (lenient rfl)
  | clipSource => exact Pass.composed_clipSource free
  | branchTarget => exact Pass.Paired.resolveBranch free (branches rfl)

theorem composed_runAll {steps : List Step} (obey : ∀ step ∈ steps, step.Obeys rules) :
    Pass.Composed rules (runAll steps) := by
  induction steps with
  | nil => exact Pass.Paired.pure fun _ => rfl
  | cons step rest inductionHypothesis =>
      obtain ⟨stepObeys, restObey⟩ := List.forall_mem_cons.mp obey
      exact (composed_run free stepObeys).bind fun _ => inductionHypothesis restObey

end Composed

/-- At widths that need not be valid, there are no demands on steps. -/
theorem composed_lenient (steps : List Step) : Pass.Composed .lenient (runAll steps) :=
  composed_runAll trivial fun _ _ =>
    ⟨fun _ => trivial, fun _ => trivial, fun _ => trivial, fun _ => id⟩

end Step

end I386
