import RubyOnBareMetal.Errno
import RubyOnBareMetal.Foundation.Memory
import RubyOnBareMetal.Foundation.Word

namespace RubyOnBareMetal.Malloc

open Foundation

/-!
# The bump allocator of `compat/ruby_on_bare_metal_malloc.c`

The static array `heap` is a memory addressed by offsets from its first byte,
so a pointer into it is an offset and the null pointer is `none`.  Every
`size_t` is a `UInt64` and wraps around as it does in C.  A block header and
the payload it describes lie in the same memory.
-/

/-- `HEAP_SIZE`: 128 MiB. -/
def heapSize : UInt64 := 128 * 1024 * 1024

/-- `sizeof(struct block_hdr)`. -/
def hdrSize : UInt64 := 16

/-- `MAGIC`, the mark of an allocated block. -/
def magic : UInt64 := 0xA110CA7E

/-- The macro `ALIGN(x, a)`. -/
def align (x a : UInt64) : UInt64 :=
  (x + a - 1) &&& ~~~(a - 1)

/-- `struct block_hdr`. -/
structure BlockHdr where
  size : UInt64
  magic : UInt64
  deriving Repr, DecidableEq

/-- The static variables of the allocator. -/
structure Allocator where
  heap : Memory
  heapUsed : UInt64

/-- Static storage starts out zero. -/
def Allocator.initial : Allocator where
  heap := Memory.zero
  heapUsed := 0

/-- Read the header stored at a position of the heap. -/
def readHdr (heap : Memory) (position : UInt64) : BlockHdr where
  size := UInt64.ofNat (heap.load position.toNat 8)
  magic := UInt64.ofNat (heap.load (position.toNat + 8) 8)

/-- Write a header at a position of the heap. -/
def writeHdr (heap : Memory) (position : UInt64) (hdr : BlockHdr) : Memory :=
  (heap.store position.toNat 8 hdr.size.toNat).store
    (position.toNat + 8) 8 hdr.magic.toNat

/-- `bump_alloc`. -/
def bumpAlloc
    (state : Allocator)
    (size alignment : UInt64) :
    Option UInt64 × Allocator :=
  let size := if size = 0 then 1 else size
  let alignment := if alignment < 16 then 16 else alignment
  let start := align (state.heapUsed + hdrSize) alignment
  let hdrPos := start - hdrSize
  let finish := start + align size 16
  if heapSize < finish then
    (none, state)
  else
    (some start, {
      heap := writeHdr state.heap hdrPos ⟨align size 16, magic⟩
      heapUsed := finish
    })

/-- `malloc`. -/
def malloc (state : Allocator) (size : UInt64) : Option UInt64 × Allocator :=
  bumpAlloc state size 16

/-- `free`: nothing is ever given back. -/
def free (state : Allocator) (_ptr : Option UInt64) : Allocator :=
  state

/-- `calloc`. -/
def calloc
    (state : Allocator)
    (nmemb size : UInt64) :
    Option UInt64 × Allocator :=
  let total := nmemb * size
  if nmemb ≠ 0 ∧ total / nmemb ≠ size then
    (none, state)
  else
    match malloc state total with
    | (none, after) => (none, after)
    | (some p, after) =>
        (some p,
          { after with heap := after.heap.fill p.toNat total.toNat 0 })

/-- `realloc`. -/
def realloc
    (state : Allocator)
    (ptr : Option UInt64)
    (size : UInt64) :
    Option UInt64 × Allocator :=
  match ptr with
  | none => malloc state size
  | some ptr =>
      if size = 0 then
        (none, free state (some ptr))
      else
        let hdr := readHdr state.heap (ptr - hdrSize)
        let oldSize := if hdr.magic = magic then hdr.size else 0
        if size ≤ oldSize then
          (some ptr, state)
        else
          match malloc state size with
          | (none, after) => (none, after)
          | (some newPtr, after) =>
              if 0 < oldSize then
                (some newPtr, {
                  after with
                  heap :=
                    after.heap.copy newPtr.toNat ptr.toNat oldSize.toNat
                })
              else
                (some newPtr, after)

/-- `posix_memalign`: the return value and what is stored through `memptr`. -/
def posixMemalign
    (state : Allocator)
    (alignment size : UInt64) :
    (Int64 × Option UInt64) × Allocator :=
  match bumpAlloc state size alignment with
  | (none, after) => ((Errno.ENOMEM, none), after)
  | (some p, after) => ((0, some p), after)

/-- `memalign`. -/
def memalign
    (state : Allocator)
    (alignment size : UInt64) :
    Option UInt64 × Allocator :=
  bumpAlloc state size alignment

/-- `aligned_alloc`. -/
def alignedAlloc
    (state : Allocator)
    (alignment size : UInt64) :
    Option UInt64 × Allocator :=
  bumpAlloc state size alignment

/-- `malloc_usable_size`. -/
def mallocUsableSize (state : Allocator) (ptr : Option UInt64) : UInt64 :=
  match ptr with
  | none => 0
  | some ptr =>
      let hdr := readHdr state.heap (ptr - hdrSize)
      if hdr.magic = magic then hdr.size else 0

/-- `__expand_heap`: the result and the value stored in `errno`, if any. -/
def expandHeap
    (state : Allocator)
    (n : UInt64) :
    (Option UInt64 × Option Int64) × Allocator :=
  match bumpAlloc state n 4096 with
  | (none, after) => ((none, some Errno.ENOMEM), after)
  | (some p, after) => ((some p, none), after)

/-! ## Alignment arithmetic -/

/-- `ALIGN` adds the mask `a - 1` and clears its bits. -/
theorem align_eq_roundUp (x a : UInt64) :
    align x a = Word.roundUp x (a - 1) := by
  have reassociated : x + a - 1 = x + (a - 1) := by
    simp only [UInt64.sub_eq_add_neg, UInt64.add_assoc]
  simp only [align, Word.roundUp, reassociated]

/-- Subtracting one from a positive word does not wrap around. -/
private theorem toNat_sub_one
    {a : UInt64}
    (positive : 0 < a.toNat) :
    (a - 1).toNat = a.toNat - 1 := by
  rw [UInt64.toNat_sub_of_le]
  · rfl
  · exact positive

/-- `ALIGN` never moves below its argument, whatever the alignment is. -/
theorem le_align
    {x a : UInt64}
    (positive : 0 < a.toNat)
    (fits : x.toNat + a.toNat ≤ 2 ^ 64) :
    x.toNat ≤ (align x a).toNat := by
  rw [align_eq_roundUp]
  apply Word.le_roundUp
  rw [toNat_sub_one positive]
  omega

/-- `ALIGN` adds less than the alignment. -/
theorem align_lt
    {x a : UInt64}
    (positive : 0 < a.toNat)
    (fits : x.toNat + a.toNat ≤ 2 ^ 64) :
    (align x a).toNat < x.toNat + a.toNat := by
  have bound :
      (Word.roundUp x (a - 1)).toNat ≤ x.toNat + (a - 1).toNat := by
    apply Word.roundUp_le
    rw [toNat_sub_one positive]
    omega
  rw [toNat_sub_one positive] at bound
  rw [align_eq_roundUp]
  omega

/-! ## Headers -/

/-- A written header is read back. -/
theorem readHdr_writeHdr
    (heap : Memory)
    (position : UInt64)
    (hdr : BlockHdr) :
    readHdr (writeHdr heap position hdr) position = hdr := by
  rcases hdr with ⟨size, mark⟩
  have width : (256 : Nat) ^ 8 = 2 ^ 64 := by rfl
  have sizeWord :
      (writeHdr heap position ⟨size, mark⟩).load position.toNat 8 =
        size.toNat := by
    rw [writeHdr, Memory.load_store_of_apart _ _ (by omega),
      Memory.load_store, width, Nat.mod_eq_of_lt size.toNat_lt]
  have magicWord :
      (writeHdr heap position ⟨size, mark⟩).load
          (position.toNat + 8) 8 =
        mark.toNat := by
    rw [writeHdr, Memory.load_store, width,
      Nat.mod_eq_of_lt mark.toNat_lt]
  simp [readHdr, sizeWord, magicWord]

/-- A header changes only the sixteen bytes it occupies. -/
theorem writeHdr_outside
    (heap : Memory)
    {position : UInt64}
    (hdr : BlockHdr)
    {address : Nat}
    (outside :
      address < position.toNat ∨ position.toNat + 16 ≤ address) :
    writeHdr heap position hdr address = heap address := by
  rw [writeHdr, Memory.store_outside _ _ (by omega),
    Memory.store_outside _ _ (by omega)]

/-- A header depends only on the sixteen bytes it occupies. -/
theorem readHdr_congr
    {first second : Memory}
    {position : UInt64}
    (same : Memory.SameOn first second position.toNat 16) :
    readHdr first position = readHdr second position := by
  have sizeWord :
      first.load position.toNat 8 = second.load position.toNat 8 := by
    apply Memory.load_congr
    intro address low high
    exact same address (by omega) (by omega)
  have magicWord :
      first.load (position.toNat + 8) 8 =
        second.load (position.toNat + 8) 8 := by
    apply Memory.load_congr
    intro address low high
    exact same address (by omega) (by omega)
  simp only [readHdr, sizeWord, magicWord]

end RubyOnBareMetal.Malloc
