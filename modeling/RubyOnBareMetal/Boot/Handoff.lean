import RubyOnBareMetal.Efi
import RubyOnBareMetal.Foundation.Memory
import RubyOnBareMetal.Foundation.Word

namespace RubyOnBareMetal.Boot

open Foundation

/-!
# From the UEFI shim to the kernel

`efi_main` of `boot/uefi/shim.c` reserves pages, copies the kernel image and
jumps to it; `kernel/kernel64.ld` has laid the image out for one address, and
`_start64` of `kernel/entry64.S` clears what the image leaves out.
-/

/-- `KERNEL_LOAD_ADDR`, where the linker script starts. -/
def kernelLoadAddr : UInt64 := 0x200000

/-- `ALIGN` of the linker script. -/
def align (boundary address : Nat) : Nat :=
  (address + boundary - 1) / boundary * boundary

/--
What `objcopy -O binary` emits for `.text`, `.rodata` and `.data`, and the
alignment and size of the zero-initialised section behind them.
-/
structure Layout where
  image : List UInt8
  bssAlign : Nat
  bssAlignPositive : 0 < bssAlign
  bssSize : Nat

namespace Layout

/-- `__bss64_start`. -/
def bss64Start (layout : Layout) : Nat :=
  align 8 (align layout.bssAlign
    (kernelLoadAddr.toNat + layout.image.length))

/-- `__bss64_end`. -/
def bss64End (layout : Layout) : Nat :=
  align 8 (layout.bss64Start + layout.bssSize)

end Layout

/-- A layout whose addresses fit into a pointer. -/
structure Kernel extends Layout where
  fits : toLayout.bss64End ≤ 2 ^ 64

/-- What `AllocatePages` answers to the two calls. -/
structure Firmware where
  fixedStatus : UInt64
  anyStatus : UInt64
  anyAddress : UInt64
  deriving Repr, DecidableEq

/-- The call of the kernel, with the pages that were reserved. -/
structure Jump where
  entry : UInt64
  pages : UInt64
  memory : Memory

/-- How `efi_main` ends; a kernel that returns is halted. -/
inductive Outcome where
  | returned (status : UInt64)
  | jumped (jump : Jump)

/-- The copy loop and the cast of the address to the entry point. -/
def loadKernel
    (image : List UInt8)
    (addr pages : UInt64)
    (memory : Memory) : Jump where
  entry := addr
  pages := pages
  memory := memory.writeAll addr.toNat image

/-- `efi_main`, with the lines it prints. -/
def efiMain
    (image : List UInt8)
    (firmware : Firmware)
    (memory : Memory) : List String × Outcome :=
  let kernelSize := UInt64.ofNat image.length
  let pages := (kernelSize + 0xFFF) / 0x1000
  let started :=
    ["Ruby on Bare Metal - UEFI shim", "allocating pages at 0x200000..."]
  if firmware.fixedStatus ≠ efiSuccess then
    let retried := started ++ ["AllocatePages failed, retrying AnyPages..."]
    if firmware.anyStatus ≠ efiSuccess then
      (retried ++ ["fatal: cannot allocate kernel memory"],
        .returned firmware.anyStatus)
    else
      (retried ++ ["jumping to kernel..."],
        .jumped (loadKernel image firmware.anyAddress pages memory))
  else
    (started ++ ["jumping to kernel..."],
      .jumped (loadKernel image kernelLoadAddr pages memory))

/-- A byte lies in the pages reserved from the firmware. -/
def Jump.Reserved (jump : Jump) (address : Nat) : Prop :=
  jump.entry.toNat ≤ address ∧
    address < jump.entry.toNat + jump.pages.toNat * 0x1000
  deriving Decidable

/--
The image has been copied to its link address, and the reserved pages cover
it up to the end of its zero-initialised section.
-/
structure Jump.Sound (jump : Jump) (layout : Layout) : Prop where
  atLink :
    jump.entry = kernelLoadAddr
  image :
    jump.memory.slice kernelLoadAddr.toNat layout.image.length =
      layout.image
  reserved :
    ∀ address,
      kernelLoadAddr.toNat ≤ address →
      address < layout.bss64End →
      jump.Reserved address

/--
`_start64` up to the call of `kernel_main`: it stores the system table
relative to where it runs and clears the section at its link address.
-/
def start64
    (layout : Layout)
    (tableOffset : Nat)
    (systemTable : UInt64)
    (jump : Jump) : Memory :=
  (jump.memory.store (jump.entry.toNat + tableOffset) 8
      systemTable.toNat).fill
    layout.bss64Start
    (8 * ((layout.bss64End - layout.bss64Start) / 8)) 0

/-! ## The layout -/

/-- Aligning an address does not lower it. -/
theorem le_align
    {boundary : Nat}
    (positive : 0 < boundary)
    (address : Nat) :
    address ≤ align boundary address := by
  have parts := Nat.div_add_mod (address + boundary - 1) boundary
  have small := Nat.mod_lt (address + boundary - 1) positive
  rw [align, Nat.mul_comm]
  omega

namespace Layout

variable (layout : Layout)

/-- The section starts behind the image. -/
theorem image_le_bss64Start :
    kernelLoadAddr.toNat + layout.image.length ≤ layout.bss64Start :=
  Nat.le_trans (le_align layout.bssAlignPositive _)
    (le_align (by decide) _)

/-- The section is as long as its contents, at least. -/
theorem bss64Start_add_le_bss64End :
    layout.bss64Start + layout.bssSize ≤ layout.bss64End :=
  le_align (by decide) _

/-- The start code clears whole words, which make up the section. -/
theorem words_cleared :
    layout.bss64Start + 8 * ((layout.bss64End - layout.bss64Start) / 8) =
      layout.bss64End := by
  have order := layout.bss64Start_add_le_bss64End
  have start : layout.bss64Start % 8 = 0 := by
    simp only [bss64Start, align, Nat.mul_mod_left]
  have finish : layout.bss64End % 8 = 0 := by
    simp only [bss64End, align, Nat.mul_mod_left]
  omega

end Layout

/-! ## The shim -/

section Shim

variable {kernel : Kernel} {firmware : Firmware} {memory : Memory}
variable {jump : Jump}

/-- The pages that `efi_main` asks for. -/
def imagePages (image : List UInt8) : UInt64 :=
  (UInt64.ofNat image.length + 0xFFF) / 0x1000

/-- The pages hold the image, and the last one is not empty. -/
theorem imagePages_bytes (kernel : Kernel) :
    (imagePages kernel.image).toNat * 0x1000 =
      (kernel.image.length + 0xFFF) / 0x1000 * 0x1000 := by
  have fits := kernel.fits
  have behind := kernel.image_le_bss64Start
  have finish := kernel.bss64Start_add_le_bss64End
  have base : kernelLoadAddr.toNat = 0x200000 := rfl
  have size :
      (UInt64.ofNat kernel.image.length).toNat = kernel.image.length := by
    apply UInt64.toNat_ofNat_of_lt'
    change kernel.image.length < 2 ^ 64
    omega
  have sum :
      (UInt64.ofNat kernel.image.length + 0xFFF).toNat =
        kernel.image.length + 0xFFF := by
    rw [Word.toNat_add_of_lt, size]
    · rfl
    · rw [size]
      change kernel.image.length + 0xFFF < 2 ^ 64
      omega
  rw [imagePages, UInt64.toNat_div, sum]
  rfl

/-- The address that the two calls of `AllocatePages` lead to. -/
def Firmware.Chooses (firmware : Firmware) (addr : UInt64) : Prop :=
  (firmware.fixedStatus = efiSuccess ∧ addr = kernelLoadAddr) ∨
    (firmware.fixedStatus ≠ efiSuccess ∧ addr = firmware.anyAddress)

/-- Where `efi_main` jumps, it has copied the image and reserved its pages. -/
theorem efiMain_jumped
    {image : List UInt8}
    (jumps : (efiMain image firmware memory).2 = .jumped jump) :
    ∃ addr,
      firmware.Chooses addr ∧
        jump = loadKernel image addr (imagePages image) memory := by
  revert jumps
  simp only [efiMain]
  split
  · next refused =>
      split
      · nofun
      · intro jumps
        exact ⟨_, .inr ⟨refused, rfl⟩, (Outcome.jumped.inj jumps).symm⟩
  · next granted =>
      intro jumps
      exact ⟨_, .inl ⟨not_not.mp granted, rfl⟩,
        (Outcome.jumped.inj jumps).symm⟩

/-- The chosen address is the fixed one if it is granted, or by chance. -/
theorem chooses_link_iff
    {addr : UInt64}
    (chosen : firmware.Chooses addr) :
    addr = kernelLoadAddr ↔
      firmware.fixedStatus = efiSuccess ∨
        firmware.anyAddress = kernelLoadAddr := by
  rcases chosen with ⟨granted, rfl⟩ | ⟨refused, rfl⟩
  · exact iff_of_true rfl (.inl granted)
  · exact ⟨.inr, fun either => either.resolve_left refused⟩

/-- A loaded kernel is at its link address if its pages are. -/
theorem loadKernel_sound_iff
    (kernel : Kernel)
    (addr : UInt64)
    (memory : Memory) :
    (loadKernel kernel.image addr (imagePages kernel.image)
        memory).Sound kernel.toLayout ↔
      addr = kernelLoadAddr ∧
        kernel.bss64End ≤
          kernelLoadAddr.toNat +
            (kernel.image.length + 0xFFF) / 0x1000 * 0x1000 := by
  have bytes := imagePages_bytes kernel
  constructor
  · intro sound
    obtain rfl : addr = kernelLoadAddr := sound.atLink
    refine ⟨rfl, Nat.not_lt.mp fun short => ?_⟩
    -- the first byte behind the pages would have to be reserved
    have inside := (sound.reserved _ (Nat.le_add_right _ _) short).2
    simp only [loadKernel, bytes] at inside
    exact absurd inside (Nat.lt_irrefl _)
  · rintro ⟨rfl, covered⟩
    exact {
      atLink := rfl
      image := Memory.slice_writeAll memory _ kernel.image
      reserved := by
        intro address low high
        refine ⟨low, ?_⟩
        simp only [loadKernel, bytes]
        omega
    }

/-- The stack that `entry64.S` puts into the section. -/
def stackSize : Nat := 8388608

/-- The stack alone is larger than what the last page has left. -/
theorem bss64End_of_stack
    (kernel : Kernel)
    (stack : stackSize ≤ kernel.bssSize) :
    kernelLoadAddr.toNat +
        (kernel.image.length + 0xFFF) / 0x1000 * 0x1000 <
      kernel.bss64End := by
  have behind := kernel.image_le_bss64Start
  have finish := kernel.bss64Start_add_le_bss64End
  have size : stackSize = 8388608 := rfl
  omega

/-- A kernel with its stack is never handed off soundly. -/
theorem not_sound_of_stack
    (stack : stackSize ≤ kernel.bssSize)
    (jumps : (efiMain kernel.image firmware memory).2 = .jumped jump) :
    ¬jump.Sound kernel.toLayout := by
  intro sound
  obtain ⟨addr, -, rfl⟩ := efiMain_jumped jumps
  have beyond := bss64End_of_stack kernel stack
  have covered := ((loadKernel_sound_iff kernel addr memory).mp sound).2
  exact absurd beyond (Nat.not_lt.mpr covered)

/-! ## The start code -/

/-- After a sound hand-off the start code stays in the reserved pages. -/
theorem start64_outside
    {layout : Layout}
    {tableOffset address : Nat}
    (sound : jump.Sound layout)
    (inImage : tableOffset + 8 ≤ layout.image.length)
    (systemTable : UInt64)
    (foreign : ¬jump.Reserved address) :
    start64 layout tableOffset systemTable jump address =
      jump.memory address := by
  have words := layout.words_cleared
  have behind := layout.image_le_bss64Start
  have finish := layout.bss64Start_add_le_bss64End
  have outside :
      address < kernelLoadAddr.toNat ∨ layout.bss64End ≤ address := by
    by_contra inside
    simp only [not_or, Nat.not_lt, Nat.not_le] at inside
    exact foreign (sound.reserved address inside.1 inside.2)
  rw [start64, sound.atLink, Memory.fill_outside _ _ (by omega),
    Memory.store_outside _ _ (by omega)]

/-- With its stack the kernel clears a byte that belongs to the firmware. -/
theorem start64_clears_foreign
    (stack : stackSize ≤ kernel.bssSize)
    (granted : firmware.fixedStatus = efiSuccess)
    (jumps : (efiMain kernel.image firmware memory).2 = .jumped jump)
    (tableOffset : Nat)
    (systemTable : UInt64) :
    ∃ address,
      ¬jump.Reserved address ∧
        start64 kernel.toLayout tableOffset systemTable jump address =
          0 := by
  have words := kernel.words_cleared
  have beyond := bss64End_of_stack kernel stack
  have finish := kernel.bss64Start_add_le_bss64End
  have size : stackSize = 8388608 := rfl
  refine ⟨kernel.bss64End - 1, ?_, ?_⟩
  · obtain ⟨addr, chosen, rfl⟩ := efiMain_jumped jumps
    obtain rfl := (chooses_link_iff chosen).mpr (.inl granted)
    rintro ⟨-, high⟩
    simp only [loadKernel, imagePages_bytes] at high
    omega
  · exact Memory.fill_inside _ _ (by omega) (by omega)

end Shim

/--
Whenever `efi_main` jumps, the image is at its link address and the reserved
pages reach to the end of its zero-initialised section if and only if the
pages are at that address and the section ends in the last page of the image.
-/
theorem handoff_sound_iff
    (kernel : Kernel)
    (firmware : Firmware)
    (memory : Memory)
    {jump : Jump}
    (jumps : (efiMain kernel.image firmware memory).2 = .jumped jump) :
    jump.Sound kernel.toLayout ↔
      (firmware.fixedStatus = efiSuccess ∨
          firmware.anyAddress = kernelLoadAddr) ∧
        kernel.bss64End ≤
          kernelLoadAddr.toNat +
            (kernel.image.length + 0xFFF) / 0x1000 * 0x1000 := by
  obtain ⟨addr, chosen, rfl⟩ := efiMain_jumped jumps
  rw [loadKernel_sound_iff, chooses_link_iff chosen]

/-- An image of sixteen bytes before a section of 1000 bytes. -/
def smallKernel : Kernel where
  image := List.replicate 16 0x90
  bssAlign := 16
  bssAlignPositive := by decide
  bssSize := 1000
  fits := by decide +kernel

/-- The same image before a section with nothing but the stack. -/
def stackKernel : Kernel where
  image := List.replicate 16 0x90
  bssAlign := 16
  bssAlignPositive := by decide
  bssSize := stackSize
  fits := by decide +kernel

/-- Pages at the link address that only the second call was given. -/
theorem handoff_sound_iff_retried :
    (loadKernel smallKernel.image kernelLoadAddr 1
        Memory.zero).Sound smallKernel.toLayout ↔
      ((0x800000000000000E : UInt64) = efiSuccess ∨
          kernelLoadAddr = kernelLoadAddr) ∧
        smallKernel.bss64End ≤
          kernelLoadAddr.toNat +
            (smallKernel.image.length + 0xFFF) / 0x1000 * 0x1000 :=
  handoff_sound_iff smallKernel
    ⟨0x800000000000000E, 0, kernelLoadAddr⟩ Memory.zero rfl

/-- With its stack even a small kernel ends behind its pages. -/
theorem stack_not_reserved :
    ¬∀ (kernel : Kernel) firmware memory jump,
      (efiMain kernel.image firmware memory).2 = .jumped jump →
      jump.Sound kernel.toLayout := by
  intro always
  have sound :=
    always stackKernel ⟨0, 0, 0⟩ Memory.zero
      (loadKernel stackKernel.image kernelLoadAddr 1 Memory.zero) rfl
  have inside := sound.reserved 0x201000 (by decide) (by decide +kernel)
  exact absurd inside (by decide +kernel)

end RubyOnBareMetal.Boot
