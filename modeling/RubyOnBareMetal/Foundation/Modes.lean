import RubyOnBareMetal.Foundation.Paging

namespace Foundation.Modes

/-!
# Processor modes

How an x86-64 processor goes from protected mode to 64-bit mode: what the
control registers, the descriptors and the jumps on the way allow, and where
instructions and descriptors are found meanwhile.  Segments are flat.  What
faults, and what leads to a mode without a model here, is `none`.
-/

/-! ## Control bits -/

/-- Bits of `CR0`. -/
def pe (cr0 : UInt32) : Bool := cr0.toNat.testBit 0
def mp (cr0 : UInt32) : Bool := cr0.toNat.testBit 1
def em (cr0 : UInt32) : Bool := cr0.toNat.testBit 2
def ts (cr0 : UInt32) : Bool := cr0.toNat.testBit 3
def nw (cr0 : UInt32) : Bool := cr0.toNat.testBit 29
def cd (cr0 : UInt32) : Bool := cr0.toNat.testBit 30
def pg (cr0 : UInt32) : Bool := cr0.toNat.testBit 31

/-- Bits of `CR4`. -/
def pae (cr4 : UInt32) : Bool := cr4.toNat.testBit 5
def osfxsr (cr4 : UInt32) : Bool := cr4.toNat.testBit 9
def osxmmexcpt (cr4 : UInt32) : Bool := cr4.toNat.testBit 10
def la57 (cr4 : UInt32) : Bool := cr4.toNat.testBit 12
def pcide (cr4 : UInt32) : Bool := cr4.toNat.testBit 17

/-- Bits of `IA32_EFER`. -/
def lme (efer : UInt64) : Bool := efer.toNat.testBit 8
def lma (efer : UInt64) : Bool := efer.toNat.testBit 10

/-- The mask of the second one. -/
def lmaMask : UInt64 := 0x400

/-! ## Descriptors -/

/-- A segment descriptor, a number of eight bytes. -/
structure Descriptor where
  value : Nat
  deriving Repr, DecidableEq

namespace Descriptor

variable (descriptor : Descriptor)

/-- Bits of a descriptor. -/
def accessed : Bool := descriptor.value.testBit 40
def writable : Bool := descriptor.value.testBit 41
def conforming : Bool := descriptor.value.testBit 42
def executable : Bool := descriptor.value.testBit 43
def ofProgram : Bool := descriptor.value.testBit 44
def present : Bool := descriptor.value.testBit 47
def long : Bool := descriptor.value.testBit 53
def wide : Bool := descriptor.value.testBit 54

/-- The privilege level of a descriptor. -/
def dpl : Nat := descriptor.value / 2 ^ 45 % 4

/-- A descriptor that has been used. -/
def use : Descriptor :=
  if descriptor.accessed then descriptor else ⟨descriptor.value + 2 ^ 40⟩

end Descriptor

/-! ## The processor -/

/-- The segment registers for data. -/
inductive DataSegment where
  | ds
  | es
  | fs
  | gs
  deriving Repr, DecidableEq

/--
The registers that take part, with the direction flag, the privilege level,
the descriptors that the segment registers hold and whether the task register
holds a 16-bit task.
-/
structure Processor where
  rax : UInt64
  rcx : UInt64
  rdx : UInt64
  rip : Nat
  df : Bool
  cr0 : UInt32
  cr3 : UInt64
  cr4 : UInt32
  efer : UInt64
  gdtBase : Nat
  gdtLimit : Nat
  cpl : Nat
  cs : Descriptor
  ss : Descriptor
  data : DataSegment → Descriptor
  oldTask : Bool
  memory : Memory

namespace Processor

variable (processor : Processor)

/-- The size of the code that the processor runs. -/
def bits : Nat :=
  if lma processor.efer ∧ processor.cs.long then
    64
  else if processor.cs.wide then
    32
  else
    16

/-- Whether an SSE instruction is run, and not an exception for it. -/
def runsSse : Bool :=
  osfxsr processor.cr4 && !em processor.cr0 && !ts processor.cr0

/-- Where a linear address is found. -/
def translate (address : Nat) : Option Paging.Translation :=
  if ¬pg processor.cr0 then
    some { physical := address % 2 ^ 32, writable := true }
  else if lma processor.efer ∧ ¬la57 processor.cr4 then
    Paging.walk processor.memory processor.cr3 (UInt64.ofNat address)
  else
    none

/-- Load a number of some bytes, least significant byte first. -/
def load (address : Nat) : Nat → Option Nat
  | 0 => some 0
  | width + 1 =>
      match processor.translate address with
      | none => none
      | some found =>
          (load (address + 1) width).map fun rest =>
            (processor.memory found.physical).toNat + 256 * rest

/-- Store a byte. -/
def put (address : Nat) (byte : UInt8) : Option Processor :=
  match processor.translate address with
  | none => none
  | some found =>
      if found.writable then
        some {
          processor with
          memory := processor.memory.write found.physical byte
        }
      else
        none

/-! ## Control registers -/

/-- `CR0` is written.  Paging makes long mode active where it is enabled. -/
def writeCr0 (value : UInt32) : Option Processor :=
  if pg value ∧ ¬pe value ∨ nw value ∧ ¬cd value then
    none
  else if pg value ∧ ¬pg processor.cr0 ∧ lme processor.efer then
    if ¬pae processor.cr4 ∨ processor.cs.long ∨ processor.oldTask then
      none
    else
      some {
        processor with
        cr0 := value
        efer := processor.efer ||| lmaMask
      }
  else if ¬pg value ∧ pg processor.cr0 then
    if processor.bits = 64 ∨ pcide processor.cr4 then
      none
    else
      some {
        processor with
        cr0 := value
        efer := processor.efer &&& ~~~lmaMask
      }
  else
    some { processor with cr0 := value }

/-- `CR4` is written. -/
def writeCr4 (value : UInt32) : Option Processor :=
  if lma processor.efer ∧
      (¬pae value ∨ la57 value ≠ la57 processor.cr4) then
    none
  else if pcide value ∧ ¬pcide processor.cr4 ∧
      (¬lma processor.efer ∨ processor.cr3 &&& 0xFFF ≠ 0) then
    none
  else
    some { processor with cr4 := value }

/-- `IA32_EFER` is written.  The bit for active long mode stays. -/
def writeEfer (value : UInt64) : Option Processor :=
  if pg processor.cr0 ∧ lme value ≠ lme processor.efer then
    none
  else
    some {
      processor with
      efer :=
        (value &&& ~~~lmaMask) ||| (processor.efer &&& lmaMask)
    }

/-! ## Segments -/

/-- A descriptor in memory. -/
def loadDescriptor (address : Nat) : Option Descriptor :=
  (processor.load address 8).map Descriptor.mk

/-- Fetch a descriptor of the table and note in the table that it is used. -/
def descriptor (selector : UInt16) : Option (Descriptor × Processor) :=
  let index := selector.toNat / 8
  let address := processor.gdtBase + 8 * index
  if index = 0 ∨ selector.toNat / 4 % 2 = 1 ∨
      processor.gdtLimit < 8 * index + 7 then
    none
  else
    match processor.loadDescriptor address with
    | none => none
    | some found =>
        if found.accessed then
          some (found, processor)
        else
          (processor.put (address + 5)
            (UInt8.ofNat (found.use.value / 2 ^ 40))).map fun noted =>
              (found, noted)

/-- The privilege level that a selector requests. -/
def rpl (selector : UInt16) : Nat :=
  selector.toNat % 4

/-- `CS` is loaded by a jump to code of 32 or 64 bits. -/
def loadCode (selector : UInt16) : Option Processor :=
  match processor.descriptor selector with
  | none => none
  | some (found, noted) =>
      if ¬found.ofProgram ∨ ¬found.executable ∨ ¬found.present then
        none
      else if found.conforming ∧ processor.cpl < found.dpl ∨
          ¬found.conforming ∧
            (processor.cpl < rpl selector ∨
              found.dpl ≠ processor.cpl) then
        none
      else if lma processor.efer ∧ found.long ∧ found.wide then
        none
      else
        some { noted with cs := found.use }

/-- A data segment is loaded. -/
def loadData (segment : DataSegment) (selector : UInt16) :
    Option Processor :=
  match processor.descriptor selector with
  | none => none
  | some (found, noted) =>
      if ¬found.ofProgram ∨ ¬found.present ∨
          found.executable ∧ ¬found.writable then
        none
      else if ¬(found.executable ∧ found.conforming) ∧
          found.dpl < max processor.cpl (rpl selector) then
        none
      else
        some {
          noted with
          data := Function.update processor.data segment found.use
        }

/-- The stack segment is loaded. -/
def loadStack (selector : UInt16) : Option Processor :=
  match processor.descriptor selector with
  | none => none
  | some (found, noted) =>
      if ¬found.ofProgram ∨ ¬found.present ∨ found.executable ∨
          ¬found.writable then
        none
      else if rpl selector ≠ processor.cpl ∨
          found.dpl ≠ processor.cpl then
        none
      else
        some { noted with ss := found.use }

end Processor

/-! ## Instructions -/

/-- Some instructions, named by what they move. -/
inductive Instruction where
  | movEax (value : UInt32)
  | movEcx (value : UInt32)
  | orEax (value : UInt32)
  | andEax (value : UInt32)
  | movEaxCr0
  | movEaxCr4
  | movCr0Eax
  | movCr3Eax
  | movCr4Eax
  | rdmsr
  | wrmsr
  | lgdt (address : UInt32)
  | ljmp (selector : UInt16) (offset : UInt32)
  | movAx (value : UInt16)
  | movDataAx (segment : DataSegment)
  | movSsAx
  | movRax (value : UInt64)
  | jmpRax
  deriving Repr, DecidableEq

namespace Instruction

/-- The size of the code that an instruction is in. -/
def bits : Instruction → Nat
  | movAx _ | movDataAx _ | movSsAx | movRax _ | jmpRax => 64
  | _ => 32

/-- Whether the kernel alone may run it. -/
def privileged : Instruction → Bool
  | movEaxCr0 | movEaxCr4 | movCr0Eax | movCr3Eax | movCr4Eax => true
  | rdmsr | wrmsr | lgdt _ => true
  | _ => false

/-- The number of `IA32_EFER`. -/
def eferNumber : UInt32 := 0xC0000080

/-- Run an instruction, after `rip` has been moved behind it. -/
def execute (instruction : Instruction) (processor : Processor) :
    Option Processor :=
  let eax := processor.rax.toUInt32
  let ax := processor.rax.toUInt16
  match instruction with
  | movEax value => some { processor with rax := value.toUInt64 }
  | movEcx value => some { processor with rcx := value.toUInt64 }
  | orEax value => some { processor with rax := (eax ||| value).toUInt64 }
  | andEax value => some { processor with rax := (eax &&& value).toUInt64 }
  | movEaxCr0 => some { processor with rax := processor.cr0.toUInt64 }
  | movEaxCr4 => some { processor with rax := processor.cr4.toUInt64 }
  | movCr0Eax => processor.writeCr0 eax
  | movCr3Eax => some { processor with cr3 := eax.toUInt64 }
  | movCr4Eax => processor.writeCr4 eax
  | rdmsr =>
      if processor.rcx.toUInt32 = eferNumber then
        some {
          processor with
          rax := processor.efer.toUInt32.toUInt64
          rdx := processor.efer >>> 32
        }
      else
        none
  | wrmsr =>
      if processor.rcx.toUInt32 = eferNumber then
        processor.writeEfer
          ((processor.rdx <<< 32) ||| eax.toUInt64)
      else
        none
  | lgdt address =>
      match processor.load address.toNat 2,
          processor.load (address.toNat + 2) 4 with
      | some limit, some base =>
          some { processor with gdtLimit := limit, gdtBase := base }
      | _, _ => none
  | ljmp selector offset =>
      (processor.loadCode selector).map fun loaded =>
        { loaded with rip := offset.toNat }
  | movAx value =>
      some {
        processor with
        rax := (processor.rax &&& ~~~0xFFFF) ||| value.toUInt64
      }
  | movDataAx segment => processor.loadData segment ax
  | movSsAx => processor.loadStack ax
  | movRax value => some { processor with rax := value }
  | jmpRax => some { processor with rip := processor.rax.toNat }

end Instruction

/-- The instruction at a physical address, with its length. -/
abbrev Program := Nat → Option (Instruction × Nat)

/-- Fetch an instruction and run it. -/
def step (program : Program) (processor : Processor) : Option Processor :=
  match processor.translate processor.rip with
  | none => none
  | some first =>
      match program first.physical with
      | none => none
      | some (instruction, length) =>
          match processor.translate (processor.rip + (length - 1)) with
          | none => none
          | some last =>
              if last.physical ≠ first.physical + (length - 1) ∨
                  processor.bits ≠ instruction.bits ∨
                  instruction.privileged ∧ processor.cpl ≠ 0 then
                none
              else
                instruction.execute {
                  processor with
                  rip := processor.rip + length
                }

/-- Run some instructions. -/
def run (program : Program) : Nat → Processor → Option Processor
  | 0, processor => some processor
  | count + 1, processor => (step program processor).bind (run program count)

/-! ## Control bits that are set and cleared -/

theorem testBit_or (first second : UInt32) (position : Nat) :
    (first ||| second).toNat.testBit position =
      (first.toNat.testBit position || second.toNat.testBit position) := by
  rw [UInt32.toNat_or, Nat.testBit_or]

theorem testBit_and (first second : UInt32) (position : Nat) :
    (first &&& second).toNat.testBit position =
      (first.toNat.testBit position && second.toNat.testBit position) := by
  rw [UInt32.toNat_and, Nat.testBit_and]

namespace Instruction

variable {processor : Processor} {eax : UInt32}

end Instruction

/-! ## Writes to the control registers -/

namespace Processor

variable {processor : Processor} {value : UInt32}

end Processor

namespace Instruction

variable {processor : Processor} {eax : UInt32}

end Instruction

/-! ## Segments that are loaded -/

namespace Processor

variable {processor : Processor}

section Segments

variable {selector : UInt16} {found : Descriptor} {noted : Processor}

end Segments

end Processor

namespace Instruction

variable {processor noted : Processor} {selector : UInt16}
variable {found : Descriptor}

end Instruction

namespace Processor

variable {processor : Processor}

/-- Below a limit every address is found at itself and may be written. -/
def Identity (processor : Processor) (limit : Nat) : Prop :=
  ∀ address, address < limit →
    processor.translate address =
      some { physical := address, writable := true }

/-- A number is loaded from where it is. -/
theorem load_of_identity
    {limit : Nat}
    (identity : processor.Identity limit)
    {address width : Nat}
    (below : address + width ≤ limit) :
    processor.load address width =
      some (processor.memory.load address width) := by
  induction width generalizing address with
  | zero =>
      rfl
  | succ width inductionHypothesis =>
      rw [load, identity address (by omega),
        inductionHypothesis (by omega)]
      rfl

/-- One that has been used is not noted again. -/
theorem descriptor_of_used
    {limit : Nat}
    (identity : processor.Identity limit)
    {index : Nat}
    {selector : UInt16}
    (selects : selector.toNat = 8 * index)
    (notNull : index ≠ 0)
    (inTable : 8 * index + 7 ≤ processor.gdtLimit)
    (below : processor.gdtBase + 8 * index + 8 ≤ limit)
    {found : Descriptor}
    (loaded :
      processor.memory.load (processor.gdtBase + 8 * index) 8 = found.value)
    (used : found.accessed = true) :
    processor.descriptor selector = some (found, processor) := by
  have here : selector.toNat / 8 = index := by omega
  have allowed :
      ¬(index = 0 ∨ selector.toNat / 4 % 2 = 1 ∨
        processor.gdtLimit < 8 * index + 7) := by
    omega
  have load : processor.loadDescriptor (processor.gdtBase + 8 * index) =
      some found := by
    rw [loadDescriptor, load_of_identity identity below, loaded]
    rfl
  rw [descriptor, here, if_neg allowed, load]
  dsimp only
  rw [used, if_pos rfl]

end Processor

end Foundation.Modes
