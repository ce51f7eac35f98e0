import RubyOnBareMetal.Malloc.Allocator

namespace RubyOnBareMetal.Malloc

open Foundation

/-!
# What an allocation does to the heap

Every allocating function either leaves the allocator as it was or appends
one block above `heap_used`.  `Extends` says everything the second outcome can
do; the functions differ only in what they put into the new payload.
-/

/--
`after` is `before` with one more block: its header and payload lie between
the two values of `heap_used`, and no byte outside that range has changed.
-/
structure Extends
    (before after : Allocator)
    (pointer usable : UInt64) : Prop where
  above :
    before.heapUsed.toNat + 16 ≤ pointer.toNat
  top :
    pointer.toNat + usable.toNat = after.heapUsed.toNat
  bound :
    after.heapUsed.toNat ≤ heapSize.toNat
  hdr :
    readHdr after.heap (pointer - hdrSize) = ⟨usable, magic⟩
  below :
    ∀ address,
      address < before.heapUsed.toNat →
      after.heap address = before.heap address
  beyond :
    ∀ address,
      after.heapUsed.toNat ≤ address →
      after.heap address = before.heap address

/-- The header of a block lies in the sixteen bytes below its pointer. -/
theorem toNat_sub_hdrSize
    {pointer : UInt64}
    (room : 16 ≤ pointer.toNat) :
    (pointer - hdrSize).toNat = pointer.toNat - 16 := by
  rw [UInt64.toNat_sub_of_le]
  · rfl
  · exact room

namespace Extends

/-- Changing bytes of the new payload only keeps the extension. -/
theorem withPayload
    {before after : Allocator}
    {pointer usable : UInt64}
    (grown : Extends before after pointer usable)
    {heap : Memory}
    (frame :
      ∀ address,
        address < pointer.toNat ∨
            pointer.toNat + usable.toNat ≤ address →
          heap address = after.heap address) :
    Extends before { after with heap := heap } pointer usable where
  above :=
    grown.above
  top :=
    grown.top
  bound :=
    grown.bound
  hdr := by
    have room : 16 ≤ pointer.toNat := by
      have := grown.above
      omega
    rw [← grown.hdr]
    apply readHdr_congr
    intro address low high
    rw [toNat_sub_hdrSize room] at high
    exact frame address (by omega)
  below := by
    intro address low
    have above := grown.above
    exact (frame address (by omega)).trans
      (grown.below address low)
  beyond := by
    intro address (high : after.heapUsed.toNat ≤ address)
    have top := grown.top
    exact (frame address (by omega)).trans
      (grown.beyond address high)

end Extends

/-- The two outcomes of a request for `size` bytes. -/
inductive Outcome
    (before : Allocator)
    (size : Nat) :
    Option UInt64 × Allocator → Prop where
  | refused :
      Outcome before size (none, before)
  | placed
      {after : Allocator}
      {pointer usable : UInt64} :
      Extends before after pointer usable →
      size ≤ usable.toNat →
      (∀ address,
        pointer.toNat ≤ address →
        after.heap address = before.heap address) →
      Outcome before size (some pointer, after)

/-- `heap_used` never passes the end of the heap. -/
def Allocator.Bounded (state : Allocator) : Prop :=
  state.heapUsed.toNat ≤ heapSize.toNat

/-- A block has at least one byte. -/
theorem toNat_payload (size : UInt64) :
    (if size = 0 then 1 else size).toNat = max 1 size.toNat := by
  split
  · next zero =>
      rw [zero]
      rfl
  · next nonzero =>
      have positive : size.toNat ≠ 0 := by
        rwa [← UInt64.toNat_inj] at nonzero
      omega

/-- A block is aligned to at least 16. -/
theorem toNat_unit (alignment : UInt64) :
    (if alignment < 16 then 16 else alignment).toNat =
      max 16 alignment.toNat := by
  split
  · next below =>
      have below : alignment.toNat < 16 :=
        UInt64.lt_iff_toNat_lt.mp below
      exact (Nat.max_eq_left (Nat.le_of_lt below)).symm
  · next above =>
      have above : 16 ≤ alignment.toNat :=
        UInt64.le_iff_toNat_le.mp (UInt64.not_lt.mp above)
      exact (Nat.max_eq_right above).symm

/--
Where `bump_alloc` places a block, for every alignment, as long as size and
alignment stay clear of the word size.
-/
theorem bumpAlloc_spec
    {state : Allocator}
    {size alignment : UInt64}
    (bounded : state.Bounded)
    (small : size.toNat + alignment.toNat ≤ 2 ^ 63 + 4096) :
    ∃ start usable : UInt64,
      state.heapUsed.toNat + 16 ≤ start.toNat ∧
        size.toNat ≤ usable.toNat ∧
          (start + usable).toNat = start.toNat + usable.toNat ∧
            bumpAlloc state size alignment =
              if heapSize < start + usable then
                (none, state)
              else
                (some start, {
                  heap :=
                    writeHdr state.heap (start - hdrSize) ⟨usable, magic⟩
                  heapUsed := start + usable
                }) := by
  generalize payloadShape : (if size = 0 then 1 else size) = payload
  generalize unitShape :
    (if alignment < 16 then 16 else alignment) = unit
  generalize startShape :
    align (state.heapUsed + hdrSize) unit = start
  have hdrSizeValue : hdrSize.toNat = 16 := rfl
  have used : state.heapUsed.toNat ≤ 134217728 := bounded
  -- The defaults of the source move size and alignment up by at most 16.
  have payloadValue : payload.toNat = max 1 size.toNat := by
    rw [← payloadShape, toNat_payload]
  have unitValue : unit.toNat = max 16 alignment.toNat := by
    rw [← unitShape, toNat_unit]
  have firstFree :
      (state.heapUsed + hdrSize).toNat = state.heapUsed.toNat + 16 := by
    rw [Word.toNat_add_of_lt (by omega), hdrSizeValue]
  have startLow : state.heapUsed.toNat + 16 ≤ start.toNat := by
    rw [← startShape, ← firstFree]
    exact le_align (by omega) (by omega)
  have startHigh :
      start.toNat < state.heapUsed.toNat + 16 + unit.toNat := by
    rw [← startShape, ← firstFree]
    exact align_lt (by omega) (by omega)
  have sixteen : (16 : UInt64).toNat = 16 := rfl
  have usableLow : payload.toNat ≤ (align payload 16).toNat :=
    le_align (by omega) (by omega)
  have usableHigh : (align payload 16).toNat < payload.toNat + 16 :=
    align_lt (by omega) (by omega)
  refine ⟨start, align payload 16, startLow, by omega, ?_, ?_⟩
  · exact Word.toNat_add_of_lt (by omega)
  · subst start unit payload
    rfl

/-- A block that ends inside the heap extends it. -/
theorem extends_of_fits
    {state : Allocator}
    {start usable : UInt64}
    (startLow : state.heapUsed.toNat + 16 ≤ start.toNat)
    (finishValue : (start + usable).toNat = start.toNat + usable.toNat)
    (fits : ¬heapSize < start + usable) :
    Extends state {
      heap := writeHdr state.heap (start - hdrSize) ⟨usable, magic⟩
      heapUsed := start + usable
    } start usable := by
  have hdrPosition : (start - hdrSize).toNat = start.toNat - 16 :=
    toNat_sub_hdrSize (by omega)
  have frame (address : Nat)
      (outside : address < start.toNat - 16 ∨ start.toNat ≤ address) :
      writeHdr state.heap (start - hdrSize) ⟨usable, magic⟩ address =
        state.heap address :=
    writeHdr_outside _ _ (by omega)
  exact {
    above := startLow
    top := finishValue.symm
    bound := UInt64.le_iff_toNat_le.mp (UInt64.not_lt.mp fits)
    hdr := readHdr_writeHdr _ _ _
    below := fun address low => frame address (by omega)
    beyond := fun address high => frame address (by
      simp only [finishValue] at high
      omega)
  }

/-- `bump_alloc` refuses or places a block. -/
theorem bumpAlloc_outcome
    {state : Allocator}
    {size alignment : UInt64}
    (bounded : state.Bounded)
    (small : size.toNat + alignment.toNat ≤ 2 ^ 63 + 4096) :
    Outcome state size.toNat (bumpAlloc state size alignment) := by
  obtain ⟨start, usable, startLow, usableLow, finishValue, shape⟩ :=
    bumpAlloc_spec bounded small
  rw [shape]
  split
  · exact .refused
  · next fits =>
      have hdrPosition : (start - hdrSize).toNat = start.toNat - 16 :=
        toNat_sub_hdrSize (by omega)
      refine .placed (extends_of_fits startLow finishValue fits) usableLow ?_
      intro address high
      exact writeHdr_outside _ _ (by omega)

/-- `malloc` refuses or places a block. -/
theorem malloc_outcome
    {state : Allocator}
    {size : UInt64}
    (bounded : state.Bounded)
    (small : size.toNat < 2 ^ 63) :
    Outcome state size.toNat (malloc state size) := by
  apply bumpAlloc_outcome bounded
  have sixteen : (16 : UInt64).toNat = 16 := rfl
  omega

/-- The product of `calloc` when it does not wrap around. -/
theorem toNat_mul_of_lt
    {nmemb size : UInt64}
    (fits : nmemb.toNat * size.toNat < 2 ^ 64) :
    (nmemb * size).toNat = nmemb.toNat * size.toNat := by
  rw [UInt64.toNat_mul, Nat.mod_eq_of_lt fits]

/-- The overflow check of `calloc` never fires on a product that fits. -/
theorem calloc_no_overflow
    {nmemb size : UInt64}
    (fits : nmemb.toNat * size.toNat < 2 ^ 64) :
    ¬(nmemb ≠ 0 ∧ nmemb * size / nmemb ≠ size) := by
  rintro ⟨nonzero, differs⟩
  apply differs
  have positive : 0 < nmemb.toNat := by
    rw [Nat.pos_iff_ne_zero]
    intro zero
    exact nonzero (UInt64.toNat_inj.mp zero)
  rw [← UInt64.toNat_inj, UInt64.toNat_div, toNat_mul_of_lt fits,
    Nat.mul_div_cancel_left _ positive]

/--
`calloc` refuses, or places a block of zeroes: the requested bytes are
cleared and the rest of the payload keeps what lay above `heap_used`.
-/
theorem calloc_cases
    {state : Allocator}
    {nmemb size : UInt64}
    (bounded : state.Bounded)
    (small : nmemb.toNat * size.toNat < 2 ^ 63) :
    calloc state nmemb size = (none, state) ∨
      ∃ pointer usable after,
        calloc state nmemb size = (some pointer, after) ∧
        Extends state after pointer usable ∧
        nmemb.toNat * size.toNat ≤ usable.toNat ∧
        (∀ address,
          pointer.toNat ≤ address →
          address < pointer.toNat + nmemb.toNat * size.toNat →
          after.heap address = 0) ∧
        (∀ address,
          pointer.toNat + nmemb.toNat * size.toNat ≤ address →
          after.heap address = state.heap address) := by
  have total : (nmemb * size).toNat = nmemb.toNat * size.toNat :=
    toNat_mul_of_lt (by omega)
  have outcome :
      Outcome state (nmemb * size).toNat (malloc state (nmemb * size)) :=
    malloc_outcome bounded (by omega)
  unfold calloc
  rw [if_neg (calloc_no_overflow (by omega))]
  generalize malloc state (nmemb * size) = result at outcome
  cases outcome with
  | refused =>
      exact .inl rfl
  | @placed after pointer usable grown large payload =>
      refine .inr ⟨pointer, usable, _, rfl, ?_, by omega, ?_, ?_⟩
      · apply grown.withPayload
        intro address outside
        exact Memory.fill_outside _ _ (by omega)
      · intro address low high
        exact Memory.fill_inside _ _ low (by omega)
      · intro address high
        refine (Memory.fill_outside _ _ (by omega)).trans ?_
        exact payload address (by omega)

/-- `realloc` keeps a block that is large enough. -/
theorem realloc_of_le
    {state : Allocator}
    {pointer size : UInt64}
    (positive : size ≠ 0)
    (enough : size ≤ mallocUsableSize state (some pointer)) :
    realloc state (some pointer) size = (some pointer, state) := by
  unfold mallocUsableSize at enough
  simp only [realloc, positive, enough, ↓reduceIte]

/-- `realloc` of a smaller block fails with the `malloc` it makes. -/
theorem realloc_of_refused
    {state after : Allocator}
    {pointer size : UInt64}
    (positive : size ≠ 0)
    (smaller : ¬size ≤ mallocUsableSize state (some pointer))
    (refused : malloc state size = (none, after)) :
    realloc state (some pointer) size = (none, after) := by
  unfold mallocUsableSize at smaller
  simp only [realloc, positive, smaller, refused, ↓reduceIte]

/-- `realloc` of a smaller block copies its payload to the new one. -/
theorem realloc_of_placed
    {state after : Allocator}
    {pointer target size : UInt64}
    (positive : size ≠ 0)
    (smaller : ¬size ≤ mallocUsableSize state (some pointer))
    (placed : malloc state size = (some target, after)) :
    realloc state (some pointer) size = (some target, {
      after with
      heap :=
        after.heap.copy target.toNat pointer.toNat
          (mallocUsableSize state (some pointer)).toNat
    }) := by
  generalize usableShape :
    mallocUsableSize state (some pointer) = usable at smaller
  unfold mallocUsableSize at usableShape
  simp only [realloc, positive, placed, usableShape, smaller,
    ↓reduceIte]
  split
  · rfl
  · next empty =>
      -- Nothing is copied from a block of unknown size.
      have zero : usable.toNat = 0 := by
        have := UInt64.le_iff_toNat_le.mp (UInt64.not_lt.mp empty)
        simpa using this
      rw [zero, Memory.copy_zero]

/--
`realloc` of a block to a positive size keeps the block, refuses and changes
nothing, or places a larger block that starts with the old contents.
-/
theorem realloc_cases
    {state : Allocator}
    {pointer size : UInt64}
    (bounded : state.Bounded)
    (positive : size ≠ 0)
    (small : size.toNat < 2 ^ 63)
    (inside :
      pointer.toNat + (mallocUsableSize state (some pointer)).toNat ≤
        state.heapUsed.toNat) :
    (realloc state (some pointer) size = (some pointer, state) ∧
        size ≤ mallocUsableSize state (some pointer)) ∨
      realloc state (some pointer) size = (none, state) ∨
      ∃ target usable after,
        realloc state (some pointer) size = (some target, after) ∧
        Extends state after target usable ∧
        size.toNat ≤ usable.toNat ∧
        (mallocUsableSize state (some pointer)).toNat < size.toNat ∧
        (∀ index,
          index < (mallocUsableSize state (some pointer)).toNat →
          after.heap (target.toNat + index) =
            state.heap (pointer.toNat + index)) ∧
        (∀ address,
          target.toNat +
              (mallocUsableSize state (some pointer)).toNat ≤ address →
          after.heap address = state.heap address) := by
  have outcome : Outcome state size.toNat (malloc state size) :=
    malloc_outcome bounded small
  by_cases enough : size ≤ mallocUsableSize state (some pointer)
  · exact .inl ⟨realloc_of_le positive enough, enough⟩
  · have larger := UInt64.lt_iff_toNat_lt.mp (UInt64.not_le.mp enough)
    generalize resultShape : malloc state size = result at outcome
    cases outcome with
    | refused =>
        exact .inr (.inl
          (realloc_of_refused positive enough resultShape))
    | @placed after target usable grown large payload =>
        have above := grown.above
        refine .inr (.inr ⟨target, usable, _,
          realloc_of_placed positive enough resultShape,
          ?_, large, larger, ?_, ?_⟩)
        · apply grown.withPayload
          intro address outside
          exact Memory.copy_outside _ _ (by omega)
        · intro index bound
          -- The source block lies below the header of the new one.
          exact (Memory.copy_inside _ bound).trans
            (grown.below _ (by omega))
        · intro address high
          exact (Memory.copy_outside _ _ (.inr high)).trans
            (payload address (by omega))

end RubyOnBareMetal.Malloc
