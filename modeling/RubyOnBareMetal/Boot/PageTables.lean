import RubyOnBareMetal.Boot.Handoff
import RubyOnBareMetal.Foundation.Paging

namespace RubyOnBareMetal.Boot

open Foundation

/-!
# The boot page tables

`_start` of `boot/boot.S` clears its BSS, which `boot/linker.ld` has placed
between 1 MiB and 2 MiB, and builds the page tables it then enters long mode
with.  What it runs is 32-bit code on four registers and the direction flag,
which it does not set itself.
-/

/--
What the linker places from 1 MiB on: so many bytes of code and data, then
the BSS, which has to end before the kernel at 2 MiB.
-/
structure BootImage where
  loaded : Nat
  fits : align 4096 (0x100000 + loaded) + 0x7000 ≤ 0x200000

namespace BootImage

variable (image : BootImage)

/-- `__bss_start`, which is also `stack_bottom`. -/
def bssStart : Nat :=
  align 4096 (0x100000 + image.loaded)

/-- `stack_top`. -/
def stackTop : Nat :=
  image.bssStart + 16384

/-- `pml4`. -/
def pml4 : Nat :=
  align 4096 image.stackTop

/-- `pdpt`. -/
def pdpt : Nat :=
  image.pml4 + 4096

/-- `pd`. -/
def pd : Nat :=
  image.pdpt + 4096

/-- `__bss_end`. -/
def bssEnd : Nat :=
  image.pd + 4096

end BootImage

/-- The registers that the code uses, the direction flag, and memory. -/
structure Processor where
  eax : UInt32
  ecx : UInt32
  edx : UInt32
  edi : UInt32
  df : Bool
  cr3 : UInt64
  memory : Memory

namespace Processor

/-- What a string instruction adds to `edi`, up or down. -/
def stride (processor : Processor) : UInt32 :=
  if processor.df then -4 else 4

/-- `rep stosl`, which stores `eax` and counts `ecx` down to zero. -/
def repStosl : Nat → Processor → Processor
  | 0, processor => processor
  | ecx + 1, processor =>
      repStosl ecx {
        processor with
        memory :=
          processor.memory.store processor.edi.toNat 4 processor.eax.toNat
        edi := processor.edi + processor.stride
        ecx := processor.ecx - 1
      }

/-- `Clear 32-bit BSS`. -/
def clearBss (image : BootImage) (processor : Processor) : Processor :=
  let edi := UInt32.ofNat image.bssStart
  let ecx := (UInt32.ofNat image.bssEnd - edi) >>> 2
  repStosl ecx.toNat {
    processor with
    edi := edi
    ecx := ecx
    eax := processor.eax ^^^ processor.eax
  }

/-- The first entries of `pml4` and of `pdpt` are made to lead on. -/
def linkTables (image : BootImage) (processor : Processor) : Processor :=
  let first := UInt32.ofNat image.pdpt ||| 3
  let second := UInt32.ofNat image.pd ||| 3
  {
    processor with
    memory :=
      (processor.memory.store image.pml4 4 first.toNat).store
        image.pdpt 4 second.toNat
    eax := second
  }

/-- One turn of the loop that fills `pd`, up to `dec`. -/
def fillEntry (processor : Processor) : Processor :=
  let carry : UInt32 :=
    if 2 ^ 32 ≤ processor.eax.toNat + 0x200000 then 1 else 0
  {
    processor with
    memory :=
      (processor.memory.store processor.edi.toNat 4
          processor.eax.toNat).store
        (processor.edi + 4).toNat 4 processor.edx.toNat
    eax := processor.eax + 0x200000
    edx := processor.edx + 0 + carry
    edi := processor.edi + 8
    ecx := processor.ecx - 1
  }

/-- The loop, which ends when `dec` has made `ecx` zero. -/
def fillLoop : Nat → Processor → Option Processor
  | 0, _ => none
  | fuel + 1, processor =>
      let next := processor.fillEntry
      if next.ecx = 0 then some next else fillLoop fuel next

/-- The registers before the loop. -/
def beforeFill (image : BootImage) (processor : Processor) : Processor := {
  processor with
  edi := UInt32.ofNat image.pd
  eax := 0x83
  edx := processor.edx ^^^ processor.edx
  ecx := 256
}

/-- `_start`, up to the load of `CR3`. -/
def start
    (image : BootImage)
    (fuel : Nat)
    (processor : Processor) :
    Option Processor :=
  let linked := (processor.clearBss image).linkTables image
  ((linked.beforeFill image).fillLoop fuel).map fun filled =>
    { filled with cr3 := UInt64.ofNat image.pml4 }

end Processor

/-! ## The layout -/

namespace BootImage

variable (image : BootImage)

/-- The BSS starts on a page. -/
theorem bssStart_aligned : image.bssStart % 4096 = 0 := by
  unfold bssStart align
  exact Nat.mul_mod_left _ _

/-- The tables follow the stack. -/
theorem pml4_eq : image.pml4 = image.bssStart + 16384 := by
  have aligned := image.bssStart_aligned
  unfold pml4 stackTop align
  omega

/-- They end the BSS. -/
theorem bssEnd_eq : image.bssEnd = image.bssStart + 28672 := by
  have tables := image.pml4_eq
  unfold bssEnd pd pdpt
  omega

/-- The BSS ends before the kernel. -/
theorem bssEnd_le : image.bssEnd ≤ 0x200000 := by
  have fits := image.fits
  have size := image.bssEnd_eq
  unfold bssStart at size
  omega

end BootImage

/-! ## What the loops leave -/

namespace Processor

/-- A sum that fits into a register. -/
theorem toNat_add_of_fits
    {first second : UInt32}
    {left right : Nat}
    (isFirst : first.toNat = left)
    (isSecond : second.toNat = right)
    (fits : left + right < 0x100000000) :
    (first + second).toNat = left + right := by
  rw [UInt32.toNat_add, isFirst, isSecond]
  exact Nat.mod_eq_of_lt fits

/-- Four bytes up, when the direction flag is clear. -/
theorem toNat_add_stride
    {processor : Processor}
    {start : Nat}
    (upwards : processor.df = false)
    (starts : processor.edi.toNat = start)
    (fits : start + 4 < 0x100000000) :
    (processor.edi + processor.stride).toNat = start + 4 := by
  rw [stride, upwards, if_neg Bool.false_ne_true]
  exact toNat_add_of_fits starts (by decide) fits

/-- Storing zeros leaves zero where it stores and where there was zero. -/
theorem repStosl_zero
    {count start : Nat}
    {processor : Processor}
    (upwards : processor.df = false)
    (zero : processor.eax = 0)
    (starts : processor.edi.toNat = start)
    (fits : start + 4 * count < 0x100000000)
    {address : Nat}
    (cleared :
      processor.memory address = 0 ∨
        (start ≤ address ∧ address < start + 4 * count)) :
    (repStosl count processor).memory address = 0 := by
  induction count generalizing processor start with
  | zero =>
      exact cleared.resolve_right (by omega)
  | succ count inductionHypothesis =>
      have next := toNat_add_stride upwards starts (by omega)
      refine inductionHypothesis upwards zero next (by omega) ?_
      dsimp only
      rw [starts, zero]
      by_cases inside : start ≤ address ∧ address < start + 4
      · left
        rw [Memory.store, if_pos inside, UInt32.toNat_zero, Nat.zero_div]
        rfl
      · rw [Memory.store, if_neg inside]
        exact cleared.imp id fun within => by omega

/-- The registers with which the BSS is cleared hold its start and size. -/
theorem bss_registers (image : BootImage) :
    (UInt32.ofNat image.bssStart).toNat = image.bssStart ∧
      image.bssStart +
          4 * ((UInt32.ofNat image.bssEnd -
            UInt32.ofNat image.bssStart) >>> 2).toNat =
        image.bssEnd := by
  have size := image.bssEnd_eq
  have limit := image.bssEnd_le
  have start :
      (UInt32.ofNat image.bssStart).toNat = image.bssStart :=
    UInt32.toNat_ofNat_of_lt' (by change _ < 0x100000000; omega)
  have finish : (UInt32.ofNat image.bssEnd).toNat = image.bssEnd :=
    UInt32.toNat_ofNat_of_lt' (by change _ < 0x100000000; omega)
  have shift : (2 : UInt32).toNat % 32 = 2 := by decide
  refine ⟨start, ?_⟩
  rw [UInt32.toNat_shiftRight, UInt32.toNat_sub_of_le, start, finish, shift,
    Nat.shiftRight_eq_div_pow]
  · omega
  · rw [UInt32.le_iff_toNat_le, start, finish]
    omega

/-- The BSS is zero once it has been cleared upwards. -/
theorem clearBss_zero
    (image : BootImage)
    {processor : Processor}
    (upwards : processor.df = false)
    {address : Nat}
    (low : image.bssStart ≤ address)
    (high : address < image.bssEnd) :
    (processor.clearBss image).memory address = 0 := by
  have limit := image.bssEnd_le
  obtain ⟨start, finish⟩ := bss_registers image
  rw [clearBss]
  exact repStosl_zero (by exact upwards) UInt32.xor_self start (by omega)
    (.inr (by omega))

/-- Setting the two flags of an aligned address adds them. -/
theorem toNat_or_three
    {address : Nat}
    (aligned : address % 4096 = 0)
    (fits : address < 0x100000000) :
    (UInt32.ofNat address ||| 3).toNat = address + 3 := by
  have word : (UInt32.ofNat address).toNat = address :=
    UInt32.toNat_ofNat_of_lt' fits
  have unit : address = 2 ^ 12 * (address / 4096) := by omega
  have flags : (3 : UInt32).toNat = 3 := by decide
  rw [UInt32.toNat_or, word, flags, unit,
    ← Nat.two_pow_add_eq_or_of_lt (by decide)]

/-- After `count` turns so many entries of `pd` have been filled. -/
structure Filled
    (image : BootImage)
    (before : Memory)
    (count : Nat)
    (processor : Processor) :
    Prop where
  eax : processor.eax.toNat = 0x83 + count * 0x200000
  edx : processor.edx = 0
  edi : processor.edi.toNat = image.pd + 8 * count
  ecx : processor.ecx.toNat + count = 256
  entries :
    ∀ entry, entry < count →
      processor.memory.load (image.pd + 8 * entry) 8 =
        0x83 + entry * 0x200000
  frame :
    ∀ address, address < image.pd ∨ image.pd + 8 * count ≤ address →
      processor.memory address = before address

/-- One turn of the loop fills one entry. -/
theorem filled_fillEntry
    {image : BootImage}
    {before : Memory}
    {count : Nat}
    {processor : Processor}
    (more : count < 256)
    (filled : Filled image before count processor) :
    Filled image before (count + 1) processor.fillEntry := by
  have limit := image.bssEnd_le
  have below : image.pd + 4096 ≤ 0x200000 := limit
  obtain ⟨eax, edx, edi, ecx, entries, frame⟩ := filled
  have high : (processor.edi + 4).toNat = image.pd + 8 * count + 4 :=
    toNat_add_of_fits edi (by decide) (by omega)
  have noCarry : ¬2 ^ 32 ≤ processor.eax.toNat + 0x200000 := by
    omega
  have stores :
      processor.fillEntry.memory =
        (processor.memory.store (image.pd + 8 * count) 4
            (0x83 + count * 0x200000)).store
          (image.pd + 8 * count + 4) 4 0 := by
    simp only [fillEntry, edi, eax, high, edx, UInt32.toNat_zero]
  refine ⟨?_, ?_, ?_, ?_, ?_, ?_⟩
  · have next :
        (processor.eax + 0x200000).toNat =
          0x83 + count * 0x200000 + 0x200000 :=
      toNat_add_of_fits eax (by decide) (by omega)
    rw [fillEntry, next]
    omega
  · simp only [fillEntry, if_neg noCarry, edx]
    rfl
  · have next :
        (processor.edi + 8).toNat = image.pd + 8 * count + 8 :=
      toNat_add_of_fits edi (by decide) (by omega)
    rw [fillEntry, next]
    omega
  · have one : (1 : UInt32).toNat = 1 := by decide
    have positive : (1 : UInt32) ≤ processor.ecx := by
      rw [UInt32.le_iff_toNat_le, one]
      omega
    rw [fillEntry, UInt32.toNat_sub_of_le _ _ positive, one]
    omega
  · intro entry early
    rw [stores]
    by_cases same : entry = count
    · rw [same, Memory.load_add _ _ 4 4,
        Memory.load_store_of_apart _ _ (by omega), Memory.load_store,
        Memory.load_store]
      omega
    · rw [Memory.load_store_of_apart _ _ (by omega),
        Memory.load_store_of_apart _ _ (by omega)]
      exact entries entry (by omega)
  · intro address outside
    rw [stores, Memory.store_outside _ _ (by omega),
      Memory.store_outside _ _ (by omega)]
    exact frame address (by omega)

/-- The loop ends once it has filled 256 entries. -/
theorem fillLoop_filled
    {image : BootImage}
    {before : Memory}
    {count fuel : Nat}
    {processor : Processor}
    (filled : Filled image before count processor)
    (more : count < 256)
    (enough : 256 ≤ count + fuel) :
    ∃ after,
      processor.fillLoop fuel = some after ∧
        Filled image before 256 after := by
  induction fuel generalizing count processor with
  | zero =>
      omega
  | succ fuel inductionHypothesis =>
      have next := filled_fillEntry more filled
      have left := next.ecx
      rw [fillLoop]
      split
      · next last =>
          rw [last, UInt32.toNat_zero, Nat.zero_add] at left
          exact ⟨_, rfl, left ▸ next⟩
      · next going =>
          have positive : processor.fillEntry.ecx.toNat ≠ 0 :=
            fun zero => going (UInt32.toNat.inj zero)
          exact inductionHypothesis next (by omega) (by omega)

/-- What the tables hold when long mode is entered. -/
structure Tabled (image : BootImage) (memory : Memory) : Prop where
  pml4 :
    ∀ entry, entry < 512 →
      memory.load (image.pml4 + 8 * entry) 8 =
        if entry = 0 then image.pdpt + 3 else 0
  pdpt :
    ∀ entry, entry < 512 →
      memory.load (image.pdpt + 8 * entry) 8 =
        if entry = 0 then image.pd + 3 else 0
  pd :
    ∀ entry, entry < 512 →
      memory.load (image.pd + 8 * entry) 8 =
        if entry < 256 then 0x83 + entry * 0x200000 else 0

/-- A word stored at the start of a cleared table is its first entry. -/
theorem load_first
    {memory : Memory}
    {table value entry : Nat}
    (zero :
      ∀ address, table ≤ address → address < table + 4096 →
        memory address = 0)
    (fits : value < 0x100000000)
    (inTable : entry < 512) :
    (memory.store table 4 value).load (table + 8 * entry) 8 =
      if entry = 0 then value else 0 := by
  split
  · next first =>
      have high : (memory.store table 4 value).load (table + 4) 4 = 0 := by
        rw [Memory.load_store_of_apart _ _ (by omega)]
        exact Memory.load_zero fun address low high =>
          zero address (by omega) (by omega)
      rw [first, Nat.mul_zero, Nat.add_zero, Memory.load_add _ _ 4 4, high,
        Memory.load_store]
      omega
  · next other =>
      rw [Memory.load_store_of_apart _ _ (by omega)]
      exact Memory.load_zero fun address low high =>
        zero address (by omega) (by omega)

/-- The two words that are stored into the cleared tables. -/
theorem linkTables_memory
    (image : BootImage)
    (processor : Processor) :
    (processor.linkTables image).memory =
      (processor.memory.store image.pml4 4 (image.pdpt + 3)).store
        image.pdpt 4 (image.pd + 3) := by
  have limit := image.bssEnd_le
  have below : image.pd + 4096 ≤ 0x200000 := limit
  have aligned := image.bssStart_aligned
  have tables := image.pml4_eq
  have first : image.pdpt = image.pml4 + 4096 := rfl
  have second : image.pd = image.pdpt + 4096 := rfl
  simp only [linkTables, toNat_or_three (by omega : image.pdpt % 4096 = 0)
    (by omega), toNat_or_three (by omega : image.pd % 4096 = 0) (by omega)]

/-- The filled entries and the linked tables are all that is not zero. -/
theorem tabled_of_filled
    {image : BootImage}
    {memory : Memory}
    {filled : Processor}
    (zero :
      ∀ address, image.pml4 ≤ address → address < image.pd + 4096 →
        memory address = 0)
    (loaded :
      Filled image
        ((memory.store image.pml4 4 (image.pdpt + 3)).store image.pdpt 4
          (image.pd + 3))
        256 filled) :
    Tabled image filled.memory := by
  have limit := image.bssEnd_le
  have below : image.pd + 4096 ≤ 0x200000 := limit
  have second : image.pdpt = image.pml4 + 4096 := rfl
  have third : image.pd = image.pdpt + 4096 := rfl
  refine ⟨?_, ?_, ?_⟩
  · intro entry inTable
    have same :
        Memory.SameOn filled.memory
          (memory.store image.pml4 4 (image.pdpt + 3))
          (image.pml4 + 8 * entry) 8 := by
      intro address low high
      rw [loaded.frame address (by omega),
        Memory.store_outside _ _ (by omega)]
    rw [Memory.load_congr same]
    exact load_first (fun address low high => zero address low (by omega))
      (by omega) inTable
  · intro entry inTable
    have same :
        Memory.SameOn filled.memory
          ((memory.store image.pml4 4 (image.pdpt + 3)).store image.pdpt 4
            (image.pd + 3))
          (image.pdpt + 8 * entry) 8 :=
      fun address low high => loaded.frame address (by omega)
    rw [Memory.load_congr same]
    refine load_first (fun address low high => ?_) (by omega) inTable
    rw [Memory.store_outside _ _ (by omega)]
    exact zero address (by omega) (by omega)
  · intro entry inTable
    split
    · next early =>
        exact loaded.entries entry early
    · next late =>
        refine Memory.load_zero fun address low high => ?_
        rw [loaded.frame address (by omega),
          Memory.store_outside _ _ (by omega),
          Memory.store_outside _ _ (by omega)]
        exact zero address (by omega) (by omega)

/-- `_start` comes to the load of `CR3` with its tables made. -/
theorem start_tabled
    (image : BootImage)
    {fuel : Nat}
    (enough : 256 ≤ fuel)
    {processor : Processor}
    (upwards : processor.df = false) :
    ∃ booted,
      processor.start image fuel = some booted ∧
        booted.cr3.toNat = image.pml4 ∧
        Tabled image booted.memory := by
  have limit := image.bssEnd_le
  have size := image.bssEnd_eq
  have tables := image.pml4_eq
  have second : image.pdpt = image.pml4 + 4096 := rfl
  have third : image.pd = image.pdpt + 4096 := rfl
  have zero (address : Nat)
      (low : image.pml4 ≤ address) (high : address < image.pd + 4096) :
      (processor.clearBss image).memory address = 0 :=
    clearBss_zero image upwards (by omega) (by omega)
  have linked := linkTables_memory image (processor.clearBss image)
  have initially :
      Filled image ((processor.clearBss image).linkTables image).memory 0
        (((processor.clearBss image).linkTables image).beforeFill image) := by
    refine ⟨rfl, UInt32.xor_self, ?_, rfl, nofun, fun _ _ => rfl⟩
    exact UInt32.toNat_ofNat_of_lt' (by change _ < 0x100000000; omega)
  obtain ⟨filled, looped, loaded⟩ :=
    fillLoop_filled initially (by decide)
      (by omega : 256 ≤ 0 + fuel)
  rw [linked] at loaded
  refine ⟨{ filled with cr3 := UInt64.ofNat image.pml4 }, ?_, ?_, ?_⟩
  · rw [start, looped]
    rfl
  · exact UInt64.toNat_ofNat_of_lt'
      (by change _ < 0x10000000000000000; omega)
  · have tabled : Tabled image filled.memory :=
      tabled_of_filled zero loaded
    exact tabled

end Processor

/-! ## The walk -/

section Walk

variable {image : BootImage} {memory : Memory} {address : UInt64}

/-- The last of the three tables maps 256 large pages to themselves. -/
theorem walkFrom_pd
    (tabled : Processor.Tabled image memory) :
    Paging.walkFrom memory address.toNat 2 image.pd true =
      if Paging.index address.toNat 1 < 256 then
        some {
          physical :=
            Paging.index address.toNat 1 * 0x200000 +
              address.toNat % 0x200000
          writable := true
        }
      else
        none := by
  have inTable : Paging.index address.toNat 1 < 512 :=
    Nat.mod_lt _ (by decide)
  have found := tabled.pd _ inTable
  have unit : Paging.span 1 = 0x200000 := by decide
  split
  · next early =>
      rw [if_pos early] at found
      have flags :
          Paging.Writable
            (0x83 + Paging.index address.toNat 1 * 0x200000) := by
        unfold Paging.Writable
        omega
      have leads :
          Paging.base (0x83 + Paging.index address.toNat 1 * 0x200000)
              (Paging.span 1) =
            Paging.index address.toNat 1 * 0x200000 := by
        rw [Paging.base, unit]
        omega
      rw [Paging.walkFrom_large found, leads, unit, decide_eq_true flags,
        Bool.and_true]
      · unfold Paging.Present
        omega
      · unfold Paging.Large
        omega
      · exact .inl rfl
      · rw [unit]
        omega
  · next late =>
      rw [if_neg late] at found
      exact Paging.walkFrom_absent found (by decide)

/-- The walk goes through the first entries of the first two tables. -/
theorem walk_tabled
    (tabled : Processor.Tabled image memory)
    {cr3 : UInt64}
    (root : cr3.toNat = image.pml4) :
    Paging.walk memory cr3 address =
      if Paging.index address.toNat 3 = 0 ∧
          Paging.index address.toNat 2 = 0 ∧
          Paging.index address.toNat 1 < 256 then
        some {
          physical :=
            Paging.index address.toNat 1 * 0x200000 +
              address.toNat % 0x200000
          writable := true
        }
      else
        none := by
  have limit := image.bssEnd_le
  have aligned := image.bssStart_aligned
  have first := image.pml4_eq
  have second : image.pdpt = image.pml4 + 4096 := rfl
  have third : image.pd = image.pdpt + 4096 := rfl
  have size := image.bssEnd_eq
  have start :
      Paging.base cr3.toNat (Paging.span 0) = image.pml4 := by
    rw [root]
    change image.pml4 % 2 ^ 52 / 4096 * 4096 = image.pml4
    omega
  have inPml4 : Paging.index address.toNat 3 < 512 :=
    Nat.mod_lt _ (by decide)
  have inPdpt : Paging.index address.toNat 2 < 512 :=
    Nat.mod_lt _ (by decide)
  rw [Paging.walk, start,
    Paging.walkFrom_only (tabled.pml4 _ inPml4) (by omega) (by omega),
    Paging.walkFrom_only (tabled.pdpt _ inPdpt) (by omega) (by omega),
    walkFrom_pd tabled]
  simp only [ite_and]

/-- An address below 512 MiB is translated to itself. -/
theorem walk_low
    (tabled : Processor.Tabled image memory)
    {cr3 : UInt64}
    (root : cr3.toNat = image.pml4)
    (low : address.toNat < 0x20000000) :
    Paging.walk memory cr3 address =
      some { physical := address.toNat, writable := true } := by
  have indices :
      Paging.index address.toNat 3 = 0 ∧
        Paging.index address.toNat 2 = 0 ∧
        Paging.index address.toNat 1 < 256 := by
    change
      address.toNat / 2 ^ 39 % 512 = 0 ∧
        address.toNat / 2 ^ 30 % 512 = 0 ∧
        address.toNat / 2 ^ 21 % 512 < 256
    omega
  have whole :
      Paging.index address.toNat 1 * 0x200000 +
          address.toNat % 0x200000 = address.toNat := by
    change
      address.toNat / 2 ^ 21 % 512 * 0x200000 + address.toNat % 0x200000 =
        address.toNat
    omega
  rw [walk_tabled tabled root, if_pos indices, whole]

/-- No other canonical address is translated. -/
theorem walk_high
    (tabled : Processor.Tabled image memory)
    {cr3 : UInt64}
    (root : cr3.toNat = image.pml4)
    (canonical : Paging.Canonical address)
    (high : 0x20000000 ≤ address.toNat) :
    Paging.walk memory cr3 address = none := by
  have indices :
      ¬(Paging.index address.toNat 3 = 0 ∧
        Paging.index address.toNat 2 = 0 ∧
        Paging.index address.toNat 1 < 256) := by
    change
      ¬(address.toNat / 2 ^ 39 % 512 = 0 ∧
        address.toNat / 2 ^ 30 % 512 = 0 ∧
        address.toNat / 2 ^ 21 % 512 < 256)
    unfold Paging.Canonical at canonical
    have word := address.toNat_lt
    omega
  rw [walk_tabled tabled root, if_neg indices]

end Walk

end RubyOnBareMetal.Boot
