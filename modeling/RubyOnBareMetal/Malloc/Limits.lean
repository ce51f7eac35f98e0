import Mathlib.Algebra.Group.Nat.Defs
import RubyOnBareMetal.Malloc.Session

namespace RubyOnBareMetal.Malloc

open Foundation

/-!
# The limit of the heap and the alignment of addresses

`bump_alloc` computes the end of a block modulo `2 ^ 64` and compares it once
with `HEAP_SIZE`.  In exact arithmetic the end is below `2 ^ 65`, so that it
is one of two ranges of ends that pass.  What it aligns is an offset into the
array, and not an address.
-/

/-! ## Any calls -/

/-- The allocator, called with any arguments. -/
def anyCalls : Machine Allocator Request Response where
  step := call
  admits _ _ := True

/-- `bump_alloc` never moves `heap_used` past the end of the heap. -/
theorem bumpAlloc_bounded
    {state : Allocator}
    (bounded : state.Bounded)
    (size alignment : UInt64) :
    (bumpAlloc state size alignment).2.Bounded := by
  unfold bumpAlloc
  generalize (if size = 0 then 1 else size) = payload
  generalize (if alignment < 16 then 16 else alignment) = unit
  dsimp only
  split
  · exact bounded
  · next fits =>
      exact UInt64.le_iff_toNat_le.mp (UInt64.not_lt.mp fits)

/-- Nor does `malloc`. -/
theorem malloc_bounded
    {state : Allocator}
    (bounded : state.Bounded)
    (size : UInt64) :
    (malloc state size).2.Bounded :=
  bumpAlloc_bounded bounded size 16

theorem calloc_bounded
    {state : Allocator}
    (bounded : state.Bounded)
    (nmemb size : UInt64) :
    (calloc state nmemb size).2.Bounded := by
  unfold calloc
  dsimp only
  split
  · exact bounded
  · have last := malloc_bounded bounded (nmemb * size)
    revert last
    cases malloc state (nmemb * size) with
    | mk pointer after =>
        cases pointer <;> exact id

/-- `realloc` keeps the heap or allocates a block and copies. -/
theorem realloc_bounded
    {state : Allocator}
    (bounded : state.Bounded)
    (ptr : Option UInt64)
    (size : UInt64) :
    (realloc state ptr size).2.Bounded := by
  have last := malloc_bounded bounded size
  cases ptr with
  | none =>
      exact last
  | some ptr =>
      unfold realloc
      dsimp only
      generalize
        (if (readHdr state.heap (ptr - hdrSize)).magic = magic then
            (readHdr state.heap (ptr - hdrSize)).size
          else
            0) =
          oldSize
      revert last
      cases malloc state size with
      | mk pointer after =>
          intro last
          split
          · exact bounded
          · split
            · exact bounded
            · cases pointer with
              | none =>
                  exact last
              | some newPtr =>
                  dsimp only
                  split <;> exact last

theorem posixMemalign_bounded
    {state : Allocator}
    (bounded : state.Bounded)
    (alignment size : UInt64) :
    (posixMemalign state alignment size).2.Bounded := by
  have last := bumpAlloc_bounded bounded size alignment
  unfold posixMemalign
  revert last
  cases bumpAlloc state size alignment with
  | mk pointer after =>
      cases pointer <;> exact id

theorem expandHeap_bounded
    {state : Allocator}
    (bounded : state.Bounded)
    (n : UInt64) :
    (expandHeap state n).2.Bounded := by
  have last := bumpAlloc_bounded bounded n 4096
  unfold expandHeap
  revert last
  cases bumpAlloc state n 4096 with
  | mk pointer after =>
      cases pointer <;> exact id

/-- No call moves `heap_used` past the end of the heap. -/
theorem call_bounded
    {state : Allocator}
    (bounded : state.Bounded)
    (request : Request) :
    (call state request).2.Bounded := by
  cases request with
  | malloc size =>
      exact malloc_bounded bounded size
  | calloc nmemb size =>
      exact calloc_bounded bounded nmemb size
  | realloc ptr size =>
      exact realloc_bounded bounded ptr size
  | memalign alignment size | alignedAlloc alignment size =>
      exact bumpAlloc_bounded bounded size alignment
  | posixMemalign alignment size =>
      exact posixMemalign_bounded bounded alignment size
  | expandHeap n =>
      exact expandHeap_bounded bounded n
  | free ptr | write ptr index value | read ptr index =>
      exact bounded

/-- `heap_used` never passes the end of the heap. -/
theorem anyCalls_bounded (requests : List Request) :
    (anyCalls.run .initial requests).Bounded := by
  have preserved :
      ∀ {state : Allocator} {request : Request},
        state.Bounded →
        anyCalls.admits state request →
        (anyCalls.step state request).2.Bounded :=
    fun bounded _ => call_bounded bounded _
  have initially : Allocator.initial.Bounded := Nat.zero_le _
  exact anyCalls.run_invariant preserved initially
    (anyCalls.admissible_of_forall (fun _ _ => trivial) _ requests)

/-! ## Exact ends -/

/-- Where a block begins, in exact arithmetic. -/
def blockStart (used alignment : Nat) : Nat :=
  Word.nextMultiple (used + 16) (max 16 alignment)

/-- Where it ends. -/
def blockEnd (used alignment size : Nat) : Nat :=
  blockStart used alignment + Word.nextMultiple (max 1 size) 16

/-- A power of two. -/
def PowerOfTwo (alignment : UInt64) : Prop :=
  ∃ bits, alignment.toNat = 2 ^ bits

/-- The smallest alignment is a power of two as well. -/
theorem PowerOfTwo.unit
    {alignment : UInt64}
    (power : PowerOfTwo alignment) :
    ∃ bits, bits < 64 ∧ max 16 alignment.toNat = 2 ^ bits := by
  obtain ⟨bits, value⟩ := power
  have small : bits < 64 := by
    rw [← Nat.pow_lt_pow_iff_right (Nat.one_lt_two), ← value]
    exact alignment.toNat_lt
  rw [value]
  rcases Nat.le_total bits 4 with low | high
  · have least : 2 ^ bits ≤ 16 := Nat.pow_le_pow_right Nat.two_pos low
    exact ⟨4, by omega, Nat.max_eq_left least⟩
  · have most : 16 ≤ 2 ^ bits := Nat.pow_le_pow_right Nat.two_pos high
    exact ⟨bits, small, Nat.max_eq_right most⟩

/-- `bump_alloc` compares the exact end modulo `2 ^ 64`. -/
theorem bumpAlloc_exact
    {state : Allocator}
    {alignment : UInt64}
    (bounded : state.Bounded)
    (power : PowerOfTwo alignment)
    (size : UInt64) :
    ∃ start usable : UInt64,
      start.toNat = blockStart state.heapUsed.toNat alignment.toNat ∧
        usable.toNat =
          Word.nextMultiple (max 1 size.toNat) 16 % 2 ^ 64 ∧
        bumpAlloc state size alignment =
          if heapSize < start + usable then
            (none, state)
          else
            (some start, {
              heap :=
                writeHdr state.heap (start - hdrSize) ⟨usable, magic⟩
              heapUsed := start + usable
            }) := by
  obtain ⟨bits, small, unitValue⟩ := power.unit
  have used : state.heapUsed.toNat ≤ 134217728 := bounded
  refine ⟨align (state.heapUsed + hdrSize)
      (if alignment < 16 then 16 else alignment),
    align (if size = 0 then 1 else size) 16, ?_, ?_, rfl⟩
  · have firstFree :
        (state.heapUsed + hdrSize).toNat = state.heapUsed.toNat + 16 :=
      Word.toNat_add_of_lt (by change _ + 16 < 2 ^ 64; omega)
    have maskValue :
        ((if alignment < 16 then 16 else alignment) - 1).toNat =
          2 ^ bits - 1 := by
      rw [UInt64.toNat_sub_of_le, toNat_unit, unitValue]
      · rfl
      · rw [UInt64.le_iff_toNat_le, toNat_unit]
        exact Nat.le_trans (by decide) (Nat.le_max_left 16 _)
    have unitPositive : 0 < 2 ^ bits := Nat.two_pow_pos bits
    have unitSmall : 2 ^ bits ≤ 2 ^ 63 :=
      Nat.pow_le_pow_right Nat.two_pos (by omega)
    have inside :=
      Word.nextMultiple_lt unitPositive (state.heapUsed.toNat + 16)
    rw [align_eq_roundUp,
      Word.roundUp_toNat_mod (by omega) maskValue, firstFree, blockStart,
      unitValue, Nat.mod_eq_of_lt (by omega)]
  · have maskValue : ((16 : UInt64) - 1).toNat = 2 ^ 4 - 1 := by rfl
    rw [align_eq_roundUp, Word.roundUp_toNat_mod (by omega) maskValue,
      toNat_payload]
    rfl

/-- The exact end of a block is below `2 ^ 65`. -/
theorem blockEnd_lt
    {used : Nat}
    {alignment : UInt64}
    (bounded : used ≤ heapSize.toNat)
    (power : PowerOfTwo alignment)
    (size : UInt64) :
    blockEnd used alignment.toNat size.toNat < 2 * 2 ^ 64 := by
  obtain ⟨bits, small, unitValue⟩ := power.unit
  have usedSmall : used ≤ 134217728 := bounded
  have unitSmall : 2 ^ bits ≤ 2 ^ 63 :=
    Nat.pow_le_pow_right Nat.two_pos (by omega)
  have startHigh :=
    Word.nextMultiple_lt (Nat.two_pow_pos bits) (used + 16)
  have sizeSmall := size.toNat_lt
  have usableHigh :=
    Word.nextMultiple_lt (show 0 < 16 by omega) (max 1 size.toNat)
  rw [blockEnd, blockStart, unitValue]
  omega

/-! ## The limit -/

/--
What the limit asks of an allocation with a given exact end: it succeeds if
the end is inside the heap, with a block that is large enough and above the
others, and otherwise changes nothing.
-/
def Limited
    (before : Allocator)
    (finish asked : Nat) :
    Option UInt64 × Allocator → Prop
  | (none, after) => heapSize.toNat < finish ∧ after = before
  | (some pointer, after) =>
      finish ≤ heapSize.toNat ∧
        asked ≤ (mallocUsableSize after (some pointer)).toNat ∧
        before.heapUsed.toNat ≤ after.heapUsed.toNat

/-- The end wraps around to a place inside the heap. -/
def WrapsInside (finish : Nat) : Prop :=
  2 ^ 64 ≤ finish ∧ finish ≤ 2 ^ 64 + heapSize.toNat

/-- What `posix_memalign` gives to a caller that looks at its result. -/
def posixPointer
    (result : (Int64 × Option UInt64) × Allocator) :
    Option UInt64 × Allocator :=
  (if result.1.1 = 0 then result.1.2 else none, result.2)

/-- The pointer is the one of `bump_alloc`. -/
theorem posixPointer_posixMemalign
    (state : Allocator)
    (alignment size : UInt64) :
    posixPointer (posixMemalign state alignment size) =
      bumpAlloc state size alignment := by
  unfold posixPointer posixMemalign
  cases bumpAlloc state size alignment with
  | mk pointer after =>
      cases pointer with
      | none =>
          rfl
      | some pointer =>
          rfl

/-- A block passes the check exactly if its wrapped end is in the heap. -/
theorem bumpAlloc_fails_iff
    {state : Allocator}
    {alignment : UInt64}
    (bounded : state.Bounded)
    (power : PowerOfTwo alignment)
    (size : UInt64) :
    (bumpAlloc state size alignment).1 = none ↔
      heapSize.toNat <
        blockEnd state.heapUsed.toNat alignment.toNat size.toNat %
          2 ^ 64 := by
  obtain ⟨start, usable, startValue, usableValue, shape⟩ :=
    bumpAlloc_exact bounded power size
  have finishValue :
      (start + usable).toNat =
        blockEnd state.heapUsed.toNat alignment.toNat size.toNat %
          2 ^ 64 := by
    rw [UInt64.toNat_add, usableValue, startValue, Nat.add_mod_mod]
    rfl
  rw [shape, ← finishValue, ← UInt64.lt_iff_toNat_lt]
  split
  · next beyondHeap =>
      exact iff_of_true rfl beyondHeap
  · next fits =>
      exact iff_of_false (Option.some_ne_none _) fits

/-- The limit holds unless the end wraps around to a place inside the heap. -/
theorem bumpAlloc_limited_iff
    {state : Allocator}
    {alignment : UInt64}
    (bounded : state.Bounded)
    (power : PowerOfTwo alignment)
    (size : UInt64) :
    let finish := blockEnd state.heapUsed.toNat alignment.toNat size.toNat
    Limited state finish size.toNat (bumpAlloc state size alignment) ↔
      ¬WrapsInside finish := by
  intro finish
  obtain ⟨start, usable, startValue, usableValue, shape⟩ :=
    bumpAlloc_exact bounded power size
  have finishSmall : finish < 2 * 2 ^ 64 :=
    blockEnd_lt bounded power size
  have finishSum :
      finish =
        start.toNat + Word.nextMultiple (max 1 size.toNat) 16 :=
    congrArg (· + _) startValue.symm
  have finishValue : (start + usable).toNat = finish % 2 ^ 64 := by
    rw [UInt64.toNat_add, usableValue, Nat.add_mod_mod, finishSum]
  have aboveUsed : state.heapUsed.toNat + 16 ≤ start.toNat := by
    rw [startValue]
    exact Word.le_nextMultiple (by omega) _
  have enough :=
    Word.le_nextMultiple (show 0 < 16 by omega) (max 1 size.toNat)
  have heapSizeValue : heapSize.toNat = 134217728 := rfl
  unfold WrapsInside
  rw [shape]
  split
  · next beyondHeap =>
      rw [UInt64.lt_iff_toNat_lt, finishValue] at beyondHeap
      refine iff_of_true ⟨?_, rfl⟩ ?_
      · omega
      · omega
  · next fits =>
      rw [UInt64.lt_iff_toNat_lt, finishValue] at fits
      have usableSize :
          mallocUsableSize
              {
                heap :=
                  writeHdr state.heap (start - hdrSize) ⟨usable, magic⟩
                heapUsed := start + usable
              }
              (some start) =
            usable := by
        simp only [mallocUsableSize, readHdr_writeHdr, if_true]
      have sizes :
          finish ≤ heapSize.toNat →
            size.toNat ≤ usable.toNat ∧
              state.heapUsed.toNat ≤ (start + usable).toNat := by
        intro inside
        rw [usableValue, finishValue]
        omega
      simp only [Limited, usableSize]
      constructor
      · rintro ⟨inside, -⟩
        omega
      · intro noWrap
        have inside : finish ≤ heapSize.toNat := by omega
        exact ⟨inside, sizes inside⟩

/-- `calloc` refuses a product that does not fit into a word. -/
theorem calloc_overflow
    (state : Allocator)
    {nmemb size : UInt64}
    (tooLarge : 2 ^ 64 ≤ nmemb.toNat * size.toNat) :
    calloc state nmemb size = (none, state) := by
  have positive : 0 < nmemb.toNat := by
    rw [Nat.pos_iff_ne_zero]
    intro zero
    rw [zero, Nat.zero_mul] at tooLarge
    omega
  have nonzero : nmemb ≠ 0 := by
    rintro rfl
    exact absurd positive (by decide)
  have differs : nmemb * size / nmemb ≠ size := by
    intro same
    have quotient := congrArg UInt64.toNat same
    rw [UInt64.toNat_div, UInt64.toNat_mul] at quotient
    have wrapped :
        nmemb.toNat * size.toNat % 2 ^ 64 < nmemb.toNat * size.toNat :=
      Nat.lt_of_lt_of_le (Nat.mod_lt _ (Nat.two_pow_pos 64)) tooLarge
    have below :=
      (Nat.div_lt_iff_lt_mul positive).mpr
        (Nat.lt_of_lt_of_eq wrapped (Nat.mul_comm _ _))
    omega
  unfold calloc
  rw [if_pos ⟨nonzero, differs⟩]

/-- There is room for a header in front of a block. -/
theorem bumpAlloc_room
    {state : Allocator}
    {alignment size pointer : UInt64}
    (bounded : state.Bounded)
    (power : PowerOfTwo alignment)
    (placed : (bumpAlloc state size alignment).1 = some pointer) :
    pointer.toNat =
        blockStart state.heapUsed.toNat alignment.toNat ∧
      16 ≤ pointer.toNat := by
  obtain ⟨start, usable, startValue, -, shape⟩ :=
    bumpAlloc_exact bounded power size
  have aboveUsed :
      state.heapUsed.toNat + 16 ≤
        blockStart state.heapUsed.toNat alignment.toNat :=
    Word.le_nextMultiple (by omega) _
  rw [shape] at placed
  split at placed
  · cases placed
  · cases placed
    omega

/-- Clearing a block keeps its header. -/
theorem mallocUsableSize_fill
    (state : Allocator)
    {pointer : UInt64}
    (room : 16 ≤ pointer.toNat)
    (count : Nat) :
    mallocUsableSize
        { state with heap := state.heap.fill pointer.toNat count 0 }
        (some pointer) =
      mallocUsableSize state (some pointer) := by
  have sameHdr :
      readHdr (state.heap.fill pointer.toNat count 0) (pointer - hdrSize) =
        readHdr state.heap (pointer - hdrSize) := by
    apply readHdr_congr
    intro address low high
    rw [toNat_sub_hdrSize room] at high
    exact Memory.fill_outside _ _ (by omega)
  simp only [mallocUsableSize, sameHdr]

/-- `calloc` keeps the limit where `malloc` does, and for larger products. -/
theorem calloc_limited_iff
    {state : Allocator}
    (bounded : state.Bounded)
    (nmemb size : UInt64) :
    let asked := nmemb.toNat * size.toNat
    let finish := blockEnd state.heapUsed.toNat 16 asked
    Limited state finish asked (calloc state nmemb size) ↔
      2 ^ 64 ≤ asked ∨ ¬WrapsInside finish := by
  intro asked finish
  have power : PowerOfTwo 16 := ⟨4, rfl⟩
  by_cases tooLarge : 2 ^ 64 ≤ asked
  · refine iff_of_true ?_ (.inl tooLarge)
    have large :=
      Word.le_nextMultiple (show 0 < 16 by omega) (max 1 asked)
    have beyond : heapSize.toNat < finish := by
      change 134217728 < _ + _
      omega
    rw [calloc_overflow state tooLarge]
    exact ⟨beyond, rfl⟩
  · rw [or_iff_right tooLarge]
    have fits : asked < 2 ^ 64 := Nat.lt_of_not_le tooLarge
    have total : (nmemb * size).toNat = asked := toNat_mul_of_lt fits
    have limited :=
      bumpAlloc_limited_iff bounded power (nmemb * size)
    rw [total] at limited
    refine Iff.trans ?_ limited
    have room (pointer : UInt64) :
        (bumpAlloc state (nmemb * size) 16).1 = some pointer →
        16 ≤ pointer.toNat :=
      fun placed => (bumpAlloc_room bounded power placed).2
    unfold calloc
    rw [if_neg (calloc_no_overflow fits), malloc]
    revert room
    cases bumpAlloc state (nmemb * size) 16 with
    | mk result after =>
        intro room
        cases result with
        | none =>
            exact Iff.rfl
        | some pointer =>
            have sameSize :=
              mallocUsableSize_fill after (room pointer rfl)
                (nmemb * size).toNat
            simp only [Limited, sameSize]
            exact Iff.rfl

/--
After any calls, an allocation of any size and any power of two as alignment
respects the limit of the heap, if and only if its exact end does not wrap
around to a place inside the heap; `calloc` also if the product itself does
not fit into a word.
-/
theorem heap_limit_iff (requests : List Request) :
    let state := anyCalls.run .initial requests
    let finish := blockEnd state.heapUsed.toNat
    (∀ size : UInt64,
      Limited state (finish 16 size.toNat) size.toNat
          (malloc state size) ↔
        ¬WrapsInside (finish 16 size.toNat)) ∧
      (∀ nmemb size : UInt64,
        let asked := nmemb.toNat * size.toNat
        Limited state (finish 16 asked) asked (calloc state nmemb size) ↔
          2 ^ 64 ≤ asked ∨ ¬WrapsInside (finish 16 asked)) ∧
      ∀ alignment size : UInt64,
        PowerOfTwo alignment →
        let limited :=
          Limited state (finish alignment.toNat size.toNat) size.toNat
        let wraps := WrapsInside (finish alignment.toNat size.toNat)
        (limited (memalign state alignment size) ↔ ¬wraps) ∧
          (limited (alignedAlloc state alignment size) ↔ ¬wraps) ∧
          (limited (posixPointer (posixMemalign state alignment size)) ↔
            ¬wraps) := by
  intro state finish
  have bounded : state.Bounded := anyCalls_bounded requests
  have powerSixteen : PowerOfTwo 16 := ⟨4, rfl⟩
  refine ⟨?_, ?_, ?_⟩
  · intro size
    exact bumpAlloc_limited_iff bounded powerSixteen size
  · intro nmemb size
    exact calloc_limited_iff bounded nmemb size
  · intro alignment size power
    have limited := bumpAlloc_limited_iff bounded power size
    rw [posixPointer_posixMemalign]
    exact ⟨limited, limited, limited⟩

/-- A hundred bytes on a page of their own, from an empty heap. -/
theorem heap_limit_page :
    Limited .initial (blockEnd 0 4096 100) 100
      (memalign .initial 4096 100) := by
  obtain ⟨-, -, aligned⟩ := heap_limit_iff []
  refine (aligned 4096 100 ⟨12, rfl⟩).1.mpr ?_
  rintro ⟨wraps, -⟩
  exact absurd wraps (by decide)

/-- The largest size gives a block without a single byte. -/
theorem malloc_wraps :
    ¬Limited .initial (blockEnd 0 16 0xFFFFFFFFFFFFFFFF)
      0xFFFFFFFFFFFFFFFF (malloc .initial 0xFFFFFFFFFFFFFFFF) := by
  intro limited
  have inside : blockEnd 0 16 0xFFFFFFFFFFFFFFFF ≤ heapSize.toNat :=
    limited.1
  exact absurd inside (by decide)

/-! ## Addresses -/

/-- The address of a block is a multiple of its alignment. -/
def AlignedAt (base alignment : UInt64) : Option UInt64 → Prop
  | none => True
  | some pointer => max 16 alignment.toNat ∣ (base + pointer).toNat

/-- With the array on a page the alignments of a page are kept. -/
theorem dvd_page
    {base : Nat}
    {bits : Nat}
    (page : 4096 ∣ base)
    (small : bits ≤ 12) :
    2 ^ bits ∣ base :=
  Nat.dvd_trans (Nat.pow_dvd_pow 2 small) page

/-- An address is aligned exactly if the array is, or nothing is placed. -/
theorem bumpAlloc_aligned_iff
    {state : Allocator}
    {base alignment : UInt64}
    (bounded : state.Bounded)
    (page : 4096 ∣ base.toNat)
    (power : PowerOfTwo alignment)
    (size : UInt64) :
    AlignedAt base alignment (bumpAlloc state size alignment).1 ↔
      heapSize.toNat <
          blockEnd state.heapUsed.toNat alignment.toNat size.toNat %
            2 ^ 64 ∨
        alignment.toNat ∣ base.toNat := by
  obtain ⟨bits, small, unitValue⟩ := power.unit
  have sameDivisor :
      max 16 alignment.toNat ∣ base.toNat ↔
        alignment.toNat ∣ base.toNat := by
    rcases Nat.le_total alignment.toNat 16 with low | high
    · obtain ⟨exponent, value⟩ := power
      have atMost : exponent ≤ 12 := by
        by_contra large
        have most : 2 ^ 12 ≤ 2 ^ exponent :=
          Nat.pow_le_pow_right Nat.two_pos (by omega)
        omega
      rw [Nat.max_eq_left low, value]
      exact iff_of_true (dvd_page page (show 4 ≤ 12 by omega))
        (dvd_page page atMost)
    · rw [Nat.max_eq_right high]
  rw [← bumpAlloc_fails_iff bounded power size, ← sameDivisor]
  cases placed : (bumpAlloc state size alignment).1 with
  | none =>
      exact iff_of_true trivial (.inl rfl)
  | some pointer =>
      obtain ⟨startValue, -⟩ := bumpAlloc_room bounded power placed
      have offset : max 16 alignment.toNat ∣ pointer.toNat := by
        rw [startValue]
        exact Word.dvd_nextMultiple _ _
      have wraps : max 16 alignment.toNat ∣ 2 ^ 64 := by
        rw [unitValue]
        exact Nat.pow_dvd_pow 2 (by omega)
      rw [AlignedAt, UInt64.toNat_add, Nat.dvd_mod_iff wraps,
        Nat.dvd_add_left offset]
      exact (or_iff_right (Option.some_ne_none pointer)).symm

/--
Wherever the array is placed on a page and after any calls, an address that
is handed out is a multiple of its alignment, if and only if the alignment
divides the address of the array or the request does not fit.
-/
theorem addresses_aligned_iff
    (base : UInt64)
    (page : 4096 ∣ base.toNat)
    (requests : List Request)
    (alignment size : UInt64)
    (power : PowerOfTwo alignment) :
    let state := anyCalls.run .initial requests
    let divides :=
      heapSize.toNat <
          blockEnd state.heapUsed.toNat alignment.toNat size.toNat %
            2 ^ 64 ∨
        alignment.toNat ∣ base.toNat
    (AlignedAt base alignment (memalign state alignment size).1 ↔
        divides) ∧
      (AlignedAt base alignment (alignedAlloc state alignment size).1 ↔
        divides) ∧
      (AlignedAt base alignment
          (posixPointer (posixMemalign state alignment size)).1 ↔
        divides) := by
  intro state divides
  have aligned :=
    bumpAlloc_aligned_iff (anyCalls_bounded requests) page power size
  rw [posixPointer_posixMemalign]
  exact ⟨aligned, aligned, aligned⟩

/-- A page of the collector, with the array on such a page. -/
theorem addresses_aligned_heap_page :
    AlignedAt 0x110000 0x10000
      (posixPointer (posixMemalign .initial 0x10000 0x10000)).1 :=
  (addresses_aligned_iff 0x110000 (by decide) [] 0x10000 0x10000
    ⟨16, rfl⟩).2.2.mpr (.inr (by decide))

/-- The array one small page further on, and the address is off by it. -/
theorem heap_page_misaligned :
    ¬AlignedAt 0x111000 0x10000
      (posixPointer (posixMemalign .initial 0x10000 0x10000)).1 := by
  intro aligned
  have divides : 0x10000 ∣ ((0x111000 : UInt64) + 0x10000).toNat :=
    aligned
  exact absurd divides (by decide)

end RubyOnBareMetal.Malloc
