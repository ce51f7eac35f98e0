import RubyOnBareMetal.Boot.PageTables
import RubyOnBareMetal.Foundation.Modes

namespace RubyOnBareMetal.Boot

open Foundation

/-!
# Entering the kernel

After its page tables are built, `boot/boot.S` sets up the control registers,
activates long mode, loads its own descriptors, jumps into 64-bit code and
from there to the kernel at 2 MiB.
-/

/-- `gdt64`: a null descriptor, one for 64-bit code and one for data. -/
def codeDescriptor : Modes.Descriptor := ⟨0x00AF9A000000FFFF⟩
def dataDescriptor : Modes.Descriptor := ⟨0x00CF92000000FFFF⟩

/-- `gdt64_ptr`, behind the three descriptors. -/
def gdt64Ptr (gdt64 : Nat) : Nat :=
  gdt64 + 24

/-- The bits that `Enable PAE + SSE` sets. -/
def cr4Bits : UInt32 :=
  (1 : UInt32) <<< 5 ||| (1 : UInt32) <<< 9 ||| (1 : UInt32) <<< 10

/-- `_start` from `mov %cr4, %eax` on, and `long_mode_entry`. -/
def longModeCode
    (image : BootImage)
    (gdt64 longModeEntry : Nat) :
    List Modes.Instruction := [
  .movEaxCr4,
  .orEax cr4Bits,
  .movCr4Eax,
  .movEaxCr0,
  .andEax (~~~((1 : UInt32) <<< 2)),
  .orEax ((1 : UInt32) <<< 1),
  .movCr0Eax,
  .movEax (UInt32.ofNat image.pml4),
  .movCr3Eax,
  .movEcx 0xC0000080,
  .rdmsr,
  .orEax ((1 : UInt32) <<< 8),
  .wrmsr,
  .movEaxCr0,
  .orEax 0x80000001,
  .movCr0Eax,
  .lgdt (UInt32.ofNat (gdt64Ptr gdt64)),
  .ljmp 0x08 (UInt32.ofNat longModeEntry),
  .movAx 0x10,
  .movDataAx .ds,
  .movDataAx .es,
  .movDataAx .fs,
  .movDataAx .gs,
  .movSsAx,
  .movRax 0x200000,
  .jmpRax
]

/--
The image with its descriptors, which are aligned in `.rodata`, and with the
addresses of the instructions, one behind the other in `.text.boot`.
-/
structure BootCode extends BootImage where
  gdt64 : Nat
  gdt64Low : 0x100000 ≤ gdt64
  gdt64High : gdt64Ptr gdt64 + 6 ≤ 0x100000 + loaded
  gdt64Aligned : gdt64 % 16 = 0
  address : Nat → Nat
  program : Modes.Program
  placed :
    ∀ index instruction,
      (longModeCode toBootImage gdt64 (address 18))[index]? =
          some instruction →
        program (address index) =
            some (instruction, address (index + 1) - address index) ∧
          0x100000 ≤ address index ∧
          address index < address (index + 1) ∧
          address (index + 1) ≤ 0x100000 + loaded

namespace BootCode

variable (code : BootCode)

/-- The instructions with their labels. -/
def instructions : List Modes.Instruction :=
  longModeCode code.toBootImage code.gdt64 (code.address 18)

/-- `_start`: the tables are built, and then the rest is run. -/
def boot
    (fuel : Nat)
    (edi : UInt32)
    (machine : Modes.Processor) :
    Option Modes.Processor :=
  let registers : Processor := {
    eax := machine.rax.toUInt32
    ecx := machine.rcx.toUInt32
    edx := machine.rdx.toUInt32
    edi := edi
    df := machine.df
    cr3 := machine.cr3
    memory := machine.memory
  }
  let image := code.toBootImage
  let linked := (registers.clearBss image).linkTables image
  ((linked.beforeFill image).fillLoop fuel).bind fun filled =>
    Modes.run code.program code.instructions.length {
      machine with
      rax := filled.eax.toUInt64
      rcx := filled.ecx.toUInt64
      rdx := filled.edx.toUInt64
      rip := code.address 0
      memory := filled.memory
    }

/-! ## What the loader leaves -/

/-- The descriptors and the pointer to them are in memory. -/
structure Loaded (memory : Memory) : Prop where
  first : memory.load (code.gdt64 + 8) 8 = codeDescriptor.value
  second : memory.load (code.gdt64 + 16) 8 = dataDescriptor.value
  limit : memory.load (gdt64Ptr code.gdt64) 2 = 23
  base : memory.load (gdt64Ptr code.gdt64 + 2) 4 = code.gdt64

/-- That depends on the bytes of both only. -/
theorem Loaded.congr
    {code : BootCode}
    {first second : Memory}
    (loaded : code.Loaded first)
    (same :
      ∀ address,
        code.gdt64 ≤ address →
        address < code.gdt64 + 30 →
        second address = first address) :
    code.Loaded second := by
  have load {start width : Nat}
      (low : code.gdt64 ≤ start) (high : start + width ≤ code.gdt64 + 30) :
      second.load start width = first.load start width :=
    Memory.load_congr fun address above below =>
      same address (by omega) (by omega)
  exact {
    first := (load (by omega) (by omega)).trans loaded.first
    second := (load (by omega) (by omega)).trans loaded.second
    limit :=
      (load (by unfold gdt64Ptr; omega) (by unfold gdt64Ptr; omega)).trans
        loaded.limit
    base :=
      (load (by unfold gdt64Ptr; omega) (by unfold gdt64Ptr; omega)).trans
        loaded.base
  }

/-- The processor is about to run an instruction, which it will find. -/
structure At (index : Nat) (machine : Modes.Processor) : Prop where
  rip : machine.rip = code.address index
  identity : machine.Identity 0x20000000
  ring : machine.cpl = 0

section Steps

variable {code : BootCode} {machine after : Modes.Processor}

/-- The image is below the kernel. -/
theorem loaded_le (code : BootCode) : 0x100000 + code.loaded ≤ 0x200000 := by
  have fits := code.fits
  have aligned := le_align (by decide : 0 < 4096) (0x100000 + code.loaded)
  omega

/-- `CR4` and `CR0` once the processor can run SSE instructions. -/
abbrev cr4For (cr4 : UInt32) : UInt32 :=
  cr4 ||| cr4Bits

abbrev cr0For (cr0 : UInt32) : UInt32 :=
  (cr0 &&& ~~~((1 : UInt32) <<< 2)) ||| (1 : UInt32) <<< 1

/-- A bit of `CR0` that is neither of the two stays. -/
theorem testBit_cr0For
    (cr0 : UInt32)
    {position : Nat}
    (kept : (~~~((1 : UInt32) <<< 2)).toNat.testBit position = true)
    (unset : ((1 : UInt32) <<< 1).toNat.testBit position = false) :
    (cr0For cr0).toNat.testBit position = cr0.toNat.testBit position := by
  rw [cr0For, Modes.testBit_or, Modes.testBit_and, kept, unset,
    Bool.and_true, Bool.or_false]

/-- Long mode is active with the tables that have been built. -/
structure Mapped (code : BootCode) (machine : Modes.Processor) : Prop where
  pg : Modes.pg machine.cr0 = true
  lma : Modes.lma machine.efer = true
  levels : Modes.la57 machine.cr4 = false
  cr3 : machine.cr3.toNat = code.pml4
  tabled : Processor.Tabled code.toBootImage machine.memory
  ring : machine.cpl = 0

/-- Addresses are translated by the tables. -/
theorem Mapped.translate
    (mapped : Mapped code machine)
    (address : Nat) :
    machine.translate address =
      Paging.walk machine.memory machine.cr3 (UInt64.ofNat address) := by
  rw [Modes.Processor.translate, mapped.pg, mapped.lma, mapped.levels,
    if_neg (not_not.mpr rfl), if_pos ⟨rfl, Bool.false_ne_true⟩]

/-- The lowest 512 MiB are where they were. -/
theorem Mapped.identity (mapped : Mapped code machine) :
    machine.Identity 0x20000000 := by
  intro address low
  have word : (UInt64.ofNat address).toNat = address :=
    UInt64.toNat_ofNat_of_lt' (low.trans (by decide))
  rw [mapped.translate,
    walk_low mapped.tabled mapped.cr3 (by rw [word]; exact low), word]

/-- A byte of the image may be written beside the tables. -/
theorem Tabled.write
    {image : BootImage}
    {memory : Memory}
    (tabled : Processor.Tabled image memory)
    {address : Nat}
    (below : address < image.pml4)
    (byte : UInt8) :
    Processor.Tabled image (memory.write address byte) := by
  have second : image.pdpt = image.pml4 + 4096 := rfl
  have third : image.pd = image.pdpt + 4096 := rfl
  have same {start : Nat} (above : image.pml4 ≤ start) :
      (memory.write address byte).load start 8 = memory.load start 8 :=
    Memory.load_congr fun query low _ =>
      memory.write_other byte (by omega)
  refine ⟨fun entry inTable => ?_, fun entry inTable => ?_,
    fun entry inTable => ?_⟩
  · rw [same (by omega)]
    exact tabled.pml4 entry inTable
  · rw [same (by omega)]
    exact tabled.pdpt entry inTable
  · rw [same (by omega)]
    exact tabled.pd entry inTable

/-- A byte of the image may be written while long mode is active. -/
theorem Mapped.write
    (mapped : Mapped code machine)
    {address : Nat}
    (below : address < code.pml4)
    (byte : UInt8) :
    Mapped code {
      machine with
      memory := machine.memory.write address byte
    } :=
  { mapped with tabled := Tabled.write mapped.tabled below byte }

/-- The descriptors are in the image, before the tables. -/
theorem gdt64_below (code : BootCode) :
    code.gdt64 + 30 ≤ 0x200000 ∧ code.gdt64 + 30 ≤ code.bssStart := by
  have high := code.gdt64High
  have limit := code.loaded_le
  have aligned := le_align (by decide : 0 < 4096) (0x100000 + code.loaded)
  unfold gdt64Ptr at high
  unfold BootImage.bssStart
  omega

/-- Long mode in 64-bit code, with the loaded table. -/
structure Long (code : BootCode) (machine : Modes.Processor) : Prop
    extends Mapped code machine where
  cs : machine.cs = codeDescriptor.use
  limit : machine.gdtLimit = 23
  base : machine.gdtBase = code.gdt64

/-- The data descriptor is found in its state before or after its first use. -/
theorem Long.descriptor
    (long : Long code machine)
    {found : Modes.Descriptor}
    (loaded : machine.memory.load (code.gdt64 + 16) 8 = found.value)
    (used : found.accessed = true) :
    machine.descriptor 0x10 = some (found, machine) := by
  obtain ⟨inImage, -⟩ := code.gdt64_below
  exact @Modes.Processor.descriptor_of_used _ _ long.identity 2 0x10 rfl
    (by decide) (by rw [long.limit]) (by rw [long.base]; omega) _
    (by rw [long.base]; exact loaded) used

end Steps

/-! ## The whole of `_start` -/

/--
The kernel is entered: in 64-bit code of the highest privilege, with flat data
segments and with 512 MiB translated to themselves and nothing else.  SSE
instructions run, unless the loader has left `TS` set, which the code does not
clear.  All but the BSS and two bytes of the descriptors is as it was loaded.
-/
structure Entered
    (code : BootCode)
    (before : Modes.Processor)
    (machine : Modes.Processor) : Prop where
  rip : machine.rip = kernelLoadAddr.toNat
  bits : machine.bits = 64
  ring : machine.cpl = 0
  ss : machine.ss = dataDescriptor.use
  data : ∀ segment, machine.data segment = dataDescriptor.use
  simd :
    Modes.osfxsr machine.cr4 = true ∧
      Modes.osxmmexcpt machine.cr4 = true ∧
        Modes.mp machine.cr0 = true ∧ Modes.em machine.cr0 = false
  sse : machine.runsSse = !Modes.ts before.cr0
  low :
    ∀ address,
      address < 0x20000000 →
      machine.translate address =
        some { physical := address, writable := true }
  high :
    ∀ address,
      0x20000000 ≤ address →
      address < 2 ^ 64 →
      Paging.Canonical (UInt64.ofNat address) →
      machine.translate address = none
  memory :
    ∀ address,
      address < code.bssStart ∨ code.bssEnd ≤ address →
      address ≠ code.gdt64 + 13 →
      address ≠ code.gdt64 + 21 →
      machine.memory address = before.memory address

/-- What has been entered. -/
theorem entered
    {code : BootCode}
    {before machine : Modes.Processor}
    (long : Long code machine)
    (isCr4 : machine.cr4 = cr4For before.cr4)
    (isCr0 : machine.cr0 = cr0For before.cr0 ||| 0x80000001)
    (kept :
      ∀ address,
        address < code.bssStart ∨ code.bssEnd ≤ address →
        address ≠ code.gdt64 + 13 →
        machine.memory address = before.memory address) :
    Entered code before {
      machine with
      rax := 0x200000
      rip := kernelLoadAddr.toNat
      ss := dataDescriptor.use
      data := fun _ => dataDescriptor.use
      memory := machine.memory.write (code.gdt64 + 21) 0x93
    } := by
  obtain ⟨-, below⟩ := code.gdt64_below
  have tables := code.pml4_eq
  have mapped := long.write (by omega : code.gdt64 + 21 < code.pml4) 0x93
  have identity := mapped.identity
  have translate := mapped.translate
  have fourth : cr4Bits.toNat.testBit 9 = true ∧
      cr4Bits.toNat.testBit 10 = true := by
    decide
  have features :
      (~~~((1 : UInt32) <<< 2)).toNat.testBit 2 = false ∧
        ((1 : UInt32) <<< 1).toNat.testBit 2 = false ∧
          ((1 : UInt32) <<< 1).toNat.testBit 1 = true ∧
            (0x80000001 : UInt32).toNat.testBit 2 = false := by
    decide
  have simd :
      Modes.osfxsr machine.cr4 = true ∧
        Modes.osxmmexcpt machine.cr4 = true ∧
          Modes.mp machine.cr0 = true ∧ Modes.em machine.cr0 = false := by
    simp only [Modes.osfxsr, Modes.osxmmexcpt, Modes.mp, Modes.em, isCr4,
      isCr0, Modes.testBit_or, Modes.testBit_and, fourth, features,
      Bool.or_true, Bool.true_or, Bool.and_false, Bool.or_false, and_self]
  have switched : Modes.ts machine.cr0 = Modes.ts before.cr0 := by
    have unset : (0x80000001 : UInt32).toNat.testBit 3 = false := by decide
    rw [Modes.ts, isCr0, Modes.testBit_or, unset, Bool.or_false]
    exact testBit_cr0For _ (by decide) (by decide)
  refine {
    rip := rfl
    bits := ?_
    ring := long.ring
    ss := rfl
    data := fun _ => rfl
    simd := simd
    sse := ?_
    low := identity
    high := fun address above fits canonical => ?_
    memory := fun address outside first second => ?_
  }
  · have isLong : codeDescriptor.use.long = true := by decide
    rw [Modes.Processor.bits, long.lma, long.cs, isLong]
    rfl
  · obtain ⟨supported, -, -, emulated⟩ := simd
    rw [Modes.Processor.runsSse, supported, emulated, switched]
    rfl
  · have word : (UInt64.ofNat address).toNat = address :=
      UInt64.toNat_ofNat_of_lt' fits
    refine (translate address).trans
      (walk_high mapped.tabled mapped.cr3 canonical ?_)
    rw [word]
    exact above
  · exact (Memory.write_other _ _ second).trans (kept address outside first)

end BootCode

end RubyOnBareMetal.Boot
