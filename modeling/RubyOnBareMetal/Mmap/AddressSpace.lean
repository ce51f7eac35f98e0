import RubyOnBareMetal.Errno
import RubyOnBareMetal.Foundation.Memory
import RubyOnBareMetal.Foundation.Word

namespace RubyOnBareMetal.Mmap

open Foundation

/-!
# The mapping allocator

Two layers hand out pages: the system calls of
`compat/ruby_on_bare_metal_syscall.c`, which move the cursor `mmap_next`
through identity-mapped RAM, and the libc functions of
`compat/ruby_on_bare_metal_malloc.c`, which call the dispatcher and translate
its result to a pointer and `errno`.  A `long` is an `Int64`, an `int` an
`Int32`, a `size_t` or an address a `UInt64`.
-/

/-- `MMAP_BASE`: the 256 MiB mark. -/
def mmapBase : UInt64 := 0x10000000

/-- `MMAP_LIMIT`: just below 496 MiB. -/
def mmapLimit : UInt64 := 0x1F000000

/-- `MAP_FAILED`, which is `(void *)-1L`. -/
def mapFailed : UInt64 := (-1 : Int64).toUInt64

/-- The RAM the cursor moves through and the cursor itself. -/
structure AddressSpace where
  ram : Memory
  mmapNext : UInt64

/-! ## The system calls -/

/-- `sys_mmap`. -/
def sysMmap
    (state : AddressSpace)
    (_addr length : UInt64)
    (prot _flags _fd : Int32)
    (_offset : Int64) :
    Int64 × AddressSpace :=
  let aligned := (state.mmapNext + 4095) &&& ~~~4095
  if mmapLimit < aligned + length then
    (-Errno.ENOMEM, state)
  else
    (aligned.toInt64, {
      ram :=
        if prot &&& 3 ≠ 0 then
          state.ram.fill aligned.toNat length.toNat 0
        else
          state.ram
      mmapNext := aligned + length
    })

/-- `sys_munmap`: a bump allocator cannot free. -/
def sysMunmap (_addr _length : UInt64) : Int64 :=
  0

/-- `sys_mprotect`. -/
def sysMprotect (_addr _len : UInt64) (_prot : Int32) : Int64 :=
  0

/-- `sys_madvise`. -/
def sysMadvise (_addr _length : UInt64) (_advice : Int32) : Int64 :=
  0

/-- Addresses that are really negated error numbers. -/
def IsErrorValue (address : UInt64) : Prop :=
  0xfffffffffffff000 < address

instance (address : UInt64) : Decidable (IsErrorValue address) :=
  inferInstanceAs (Decidable (0xfffffffffffff000 < address))

/-- `sys_mremap`. -/
def sysMremap
    (state : AddressSpace)
    (oldAddr oldSize newSize : UInt64)
    (_flags : Int32) :
    Int64 × AddressSpace :=
  if IsErrorValue oldAddr then
    sysMmap state 0 newSize 3 0 (-1) 0
  else if newSize ≤ oldSize then
    (oldAddr.toInt64, state)
  else
    let (newAddr, after) := sysMmap state 0 newSize 3 0 (-1) 0
    if newAddr < 0 then
      (newAddr, after)
    else
      (newAddr, {
        after with
        ram :=
          after.ram.copy newAddr.toUInt64.toNat
            oldAddr.toNat oldSize.toNat
      })

/-- The cases of the dispatcher that manage memory. -/
inductive SyscallNumber where
  | mmap
  | mprotect
  | munmap
  | mremap
  | madvise
  deriving Repr, DecidableEq

/-- The number that selects a case. -/
def SyscallNumber.value : SyscallNumber → Int64
  | .mmap => 9
  | .mprotect => 10
  | .munmap => 11
  | .mremap => 25
  | .madvise => 28

/-- `ruby_on_bare_metal_syscall`, restricted to its memory cases. -/
def rubyOnBareMetalSyscall
    (state : AddressSpace)
    (n : SyscallNumber)
    (a1 a2 a3 a4 a5 a6 : Int64) :
    Int64 × AddressSpace :=
  match n with
  | .mmap =>
      sysMmap state a1.toUInt64 a2.toUInt64
        a3.toInt32 a4.toInt32 a5.toInt32 a6
  | .mprotect =>
      (sysMprotect a1.toUInt64 a2.toUInt64 a3.toInt32, state)
  | .munmap =>
      (sysMunmap a1.toUInt64 a2.toUInt64, state)
  | .mremap =>
      sysMremap state a1.toUInt64 a2.toUInt64 a3.toUInt64 a4.toInt32
  | .madvise =>
      (sysMadvise a1.toUInt64 a2.toUInt64 a3.toInt32, state)

/-! ## The libc functions -/

/-- What the libc layer sees: the address space and `errno`. -/
structure Libc where
  space : AddressSpace
  errno : Int64

/-- `mmap`. -/
def mmap
    (state : Libc)
    (addr length : UInt64)
    (prot flags fd : Int32)
    (offset : Int64) :
    UInt64 × Libc :=
  let (ret, space) :=
    rubyOnBareMetalSyscall state.space .mmap
      addr.toInt64 length.toInt64 prot.toInt64
      flags.toInt64 fd.toInt64 offset
  if ret < 0 ∧ -4096 < ret then
    (mapFailed, { space := space, errno := -ret })
  else
    (ret.toUInt64, { state with space := space })

/-- `munmap`. -/
def munmap (_addr _length : UInt64) : Int32 :=
  0

/-- `mprotect`. -/
def mprotect (_addr _len : UInt64) (_prot : Int32) : Int32 :=
  0

/-- `madvise`. -/
def madvise (_addr _length : UInt64) (_advice : Int32) : Int32 :=
  0

/-- `mremap`. -/
def mremap
    (state : Libc)
    (oldAddr oldSize newSize : UInt64)
    (_flags : Int32) :
    UInt64 × Libc :=
  if IsErrorValue oldAddr then
    mmap state 0 newSize 3 0x22 (-1) 0
  else if newSize ≤ oldSize then
    (oldAddr, state)
  else
    let (newAddr, after) := mmap state 0 newSize 3 0x22 (-1) 0
    if newAddr = mapFailed then
      (mapFailed, after)
    else
      (newAddr, {
        after with
        space := {
          after.space with
          ram :=
            after.space.ram.copy newAddr.toNat
              oldAddr.toNat oldSize.toNat
        }
      })

/-! ## What a request for pages does -/

/-- The cursor stays between the two bounds of the mapping area. -/
def AddressSpace.Within (state : AddressSpace) : Prop :=
  mmapBase.toNat ≤ state.mmapNext.toNat ∧
    state.mmapNext.toNat ≤ mmapLimit.toNat

/--
`after` is `before` with `length` bytes handed out at the next page boundary;
no other byte has changed.
-/
structure Placed
    (before after : AddressSpace)
    (address length : UInt64) : Prop where
  page :
    address.toNat = (before.mmapNext.toNat + 4095) / 4096 * 4096
  top :
    address.toNat + length.toNat = after.mmapNext.toNat
  bound :
    after.mmapNext.toNat ≤ mmapLimit.toNat
  frame :
    ∀ query,
      query < address.toNat ∨
          address.toNat + length.toNat ≤ query →
        after.ram query = before.ram query

/-- The two outcomes of `sys_mmap`. -/
inductive MmapOutcome
    (before : AddressSpace)
    (length : UInt64)
    (prot : Int32) :
    Int64 × AddressSpace → Prop where
  | refused :
      MmapOutcome before length prot (-Errno.ENOMEM, before)
  | placed
      {after : AddressSpace} {address : UInt64} :
      Placed before after address length →
      (prot &&& 3 ≠ 0 →
        ∀ index,
          index < length.toNat →
          after.ram (address.toNat + index) = 0) →
      MmapOutcome before length prot (address.toInt64, after)

/-- An address below half of the address space is a positive `long`. -/
theorem toInt_toInt64_of_lt
    {address : UInt64}
    (low : address.toNat < 2 ^ 63) :
    address.toInt64.toInt = address.toNat := by
  apply BitVec.toInt_eq_toNat_of_lt
  change 2 * address.toNat < 2 ^ 64
  omega

/-- Such an address is not mistaken for an error. -/
theorem not_toInt64_lt_zero
    {address : UInt64}
    (low : address.toNat < 2 ^ 63) :
    ¬address.toInt64 < 0 := by
  rw [Int64.lt_iff_toInt_lt, toInt_toInt64_of_lt low]
  change ¬(address.toNat : Int) < 0
  omega

/-- A placed range starts below half of the address space. -/
theorem Placed.low
    {before after : AddressSpace}
    {address length : UInt64}
    (placed : Placed before after address length) :
    address.toNat < 2 ^ 63 := by
  have limit : mmapLimit.toNat = 0x1F000000 := rfl
  have top := placed.top
  have bound := placed.bound
  omega

/-- A placed range starts on a page. -/
theorem Placed.aligned
    {before after : AddressSpace}
    {address length : UInt64}
    (placed : Placed before after address length) :
    address.toNat % 4096 = 0 := by
  rw [placed.page, Nat.mul_mod_left]

/-- A placed range starts above the cursor. -/
theorem Placed.above
    {before after : AddressSpace}
    {address length : UInt64}
    (placed : Placed before after address length) :
    before.mmapNext.toNat ≤ address.toNat := by
  have page := placed.page
  omega

/-- A placed range keeps the cursor in bounds. -/
theorem Placed.within
    {before after : AddressSpace}
    {address length : UInt64}
    (placed : Placed before after address length)
    (within : before.Within) :
    after.Within := by
  have base := Nat.le_trans within.1 placed.above
  have top := placed.top
  exact ⟨by omega, placed.bound⟩

/-- The cursor is not above its limit. -/
def AddressSpace.Bounded (state : AddressSpace) : Prop :=
  state.mmapNext.toNat ≤ mmapLimit.toNat

/--
From a cursor that is not above its limit `sys_mmap` compares the end of the
next pages, which may have wrapped around, with the limit.
-/
theorem sysMmap_exact
    {state : AddressSpace}
    (bounded : state.Bounded)
    (addr length : UInt64)
    (prot flags fd : Int32)
    (offset : Int64) :
    ∃ address : UInt64,
      address.toNat = (state.mmapNext.toNat + 4095) / 4096 * 4096 ∧
        address.toNat ≤ mmapLimit.toNat ∧
        sysMmap state addr length prot flags fd offset =
          if mmapLimit < address + length then
            (-Errno.ENOMEM, state)
          else
            (address.toInt64, {
              ram :=
                if prot &&& 3 ≠ 0 then
                  state.ram.fill address.toNat length.toNat 0
                else
                  state.ram
              mmapNext := address + length
            }) := by
  have limit : mmapLimit.toNat = 0x1F000000 := rfl
  have cursor : state.mmapNext.toNat ≤ 0x1F000000 := bounded
  have mask : (4095 : UInt64).toNat = 2 ^ 12 - 1 := rfl
  have page :
      (Word.roundUp state.mmapNext 4095).toNat =
        (state.mmapNext.toNat + 4095) / 4096 * 4096 :=
    Word.roundUp_toNat mask (by omega)
  exact ⟨Word.roundUp state.mmapNext 4095, page, by omega, rfl⟩

/--
From a cursor within bounds and for a length below half of the address space,
`sys_mmap` refuses and changes nothing, or hands out the next pages.
-/
theorem sysMmap_outcome
    {state : AddressSpace}
    {length : UInt64}
    (within : state.Within)
    (small : length.toNat < 2 ^ 63)
    (addr : UInt64)
    (prot flags fd : Int32)
    (offset : Int64) :
    MmapOutcome state length prot
      (sysMmap state addr length prot flags fd offset) := by
  have limit : mmapLimit.toNat = 0x1F000000 := rfl
  obtain ⟨address, page, low, shape⟩ :=
    sysMmap_exact within.2 addr length prot flags fd offset
  have finish :
      (address + length).toNat = address.toNat + length.toNat :=
    Word.toNat_add_of_lt (by omega)
  rw [shape]
  split
  · exact .refused
  · next fits =>
      have bound :
          (address + length).toNat ≤ mmapLimit.toNat :=
        UInt64.le_iff_toNat_le.mp (UInt64.not_lt.mp fits)
      refine .placed ?_ ?_
      · refine {
          page := page
          top := finish.symm
          bound := bound
          frame := ?_
        }
        intro query outside
        split
        · exact Memory.fill_outside _ _ outside
        · rfl
      · intro readable index inside
        simp only [readable, ne_eq, not_false_eq_true, ↓reduceIte]
        exact Memory.fill_inside _ _ (by omega) (by omega)

/-- The four outcomes of `sys_mremap`. -/
inductive MremapOutcome
    (before : AddressSpace)
    (oldAddr oldSize newSize : UInt64) :
    Int64 × AddressSpace → Prop where
  | refused :
      MremapOutcome before oldAddr oldSize newSize
        (-Errno.ENOMEM, before)
  | fresh
      {after : AddressSpace} {address : UInt64} :
      IsErrorValue oldAddr →
      Placed before after address newSize →
      (∀ index,
        index < newSize.toNat →
        after.ram (address.toNat + index) = 0) →
      MremapOutcome before oldAddr oldSize newSize
        (address.toInt64, after)
  | kept :
      ¬IsErrorValue oldAddr →
      newSize ≤ oldSize →
      MremapOutcome before oldAddr oldSize newSize
        (oldAddr.toInt64, before)
  | moved
      {after : AddressSpace} {address : UInt64} :
      ¬IsErrorValue oldAddr →
      oldSize < newSize →
      Placed before after address newSize →
      (oldAddr.toNat + oldSize.toNat ≤ address.toNat →
        ∀ index,
          index < oldSize.toNat →
          after.ram (address.toNat + index) =
            before.ram (oldAddr.toNat + index)) →
      (∀ index,
        oldSize.toNat ≤ index →
        index < newSize.toNat →
        after.ram (address.toNat + index) = 0) →
      MremapOutcome before oldAddr oldSize newSize
        (address.toInt64, after)

/-- Every call of `sys_mremap` has one of its four outcomes. -/
theorem sysMremap_outcome
    {state : AddressSpace}
    {newSize : UInt64}
    (within : state.Within)
    (small : newSize.toNat < 2 ^ 63)
    (oldAddr oldSize : UInt64)
    (flags : Int32) :
    MremapOutcome state oldAddr oldSize newSize
      (sysMremap state oldAddr oldSize newSize flags) := by
  have readable : (3 : Int32) &&& 3 ≠ 0 := by decide
  have outcome :=
    sysMmap_outcome within small 0 3 0 (-1) 0
  unfold sysMremap
  by_cases error : IsErrorValue oldAddr
  · rw [if_pos error]
    generalize sysMmap state 0 newSize 3 0 (-1) 0 = result at outcome
    cases outcome with
    | refused =>
        exact .refused
    | placed placed zeroed =>
        exact .fresh error placed (zeroed readable)
  · rw [if_neg error]
    by_cases fits : newSize ≤ oldSize
    · rw [if_pos fits]
      exact .kept error fits
    · rw [if_neg fits]
      have grows : oldSize < newSize := UInt64.not_le.mp fits
      have larger : oldSize.toNat < newSize.toNat :=
        UInt64.lt_iff_toNat_lt.mp grows
      generalize sysMmap state 0 newSize 3 0 (-1) 0 = result
        at outcome
      cases outcome with
      | refused =>
          exact .refused
      | @placed after address placed zeroed =>
          simp only [not_toInt64_lt_zero placed.low, ↓reduceIte,
            UInt64.toUInt64_toInt64]
          refine .moved error grows {
            page := placed.page
            top := placed.top
            bound := placed.bound
            frame := ?_
          } ?_ ?_
          · intro query outside
            exact (Memory.copy_outside _ _ (by omega)).trans
              (placed.frame query outside)
          · intro below index inside
            -- The old range ends before the new one starts.
            exact (Memory.copy_inside _ inside).trans
              (placed.frame _ (.inl (by omega)))
          · intro index high inside
            exact (Memory.copy_outside _ _ (by omega)).trans
              (zeroed readable index inside)

end RubyOnBareMetal.Mmap
