import Mathlib.Algebra.Group.Nat.Defs
import RubyOnBareMetal.Mmap.Mappings

namespace RubyOnBareMetal.Mmap

open Foundation

/-!
# The limit of the mapping area

`sys_mmap` adds the length to the next page modulo `2 ^ 64` and compares the
sum with `MMAP_LIMIT`.  A sum that wraps around is below the page it started
from, so that it always passes.
-/

/-! ## Any calls -/

/-- Both layers, called with any arguments. -/
def anyCalls : Machine Libc Request Response where
  step := call
  admits _ _ := True

/-- `sys_mmap` does not move the cursor above its limit. -/
theorem sysMmap_bounded
    {state : AddressSpace}
    (bounded : state.Bounded)
    (addr length : UInt64)
    (prot flags fd : Int32)
    (offset : Int64) :
    (sysMmap state addr length prot flags fd offset).2.Bounded := by
  obtain ⟨address, -, -, shape⟩ :=
    sysMmap_exact bounded addr length prot flags fd offset
  rw [shape]
  split
  · exact bounded
  · next fits =>
      exact UInt64.le_iff_toNat_le.mp (UInt64.not_lt.mp fits)

/-- Nor does `sys_mremap`. -/
theorem sysMremap_bounded
    {state : AddressSpace}
    (bounded : state.Bounded)
    (oldAddr oldSize newSize : UInt64)
    (flags : Int32) :
    (sysMremap state oldAddr oldSize newSize flags).2.Bounded := by
  have mapped := sysMmap_bounded bounded 0 newSize 3 0 (-1) 0
  unfold sysMremap
  revert mapped
  cases sysMmap state 0 newSize 3 0 (-1) 0 with
  | mk newAddr after =>
      intro mapped
      split
      · exact mapped
      · split
        · exact bounded
        · dsimp only
          split <;> exact mapped

/-- Nor does the dispatcher. -/
theorem syscall_bounded
    {state : AddressSpace}
    (bounded : state.Bounded)
    (n : SyscallNumber)
    (a1 a2 a3 a4 a5 a6 : Int64) :
    (rubyOnBareMetalSyscall state n a1 a2 a3 a4 a5 a6).2.Bounded := by
  cases n with
  | mmap =>
      exact sysMmap_bounded bounded a1.toUInt64 a2.toUInt64 a3.toInt32
        a4.toInt32 a5.toInt32 a6
  | mremap =>
      exact sysMremap_bounded bounded a1.toUInt64 a2.toUInt64 a3.toUInt64
        a4.toInt32
  | _ =>
      exact bounded

/-- Nor does the libc `mmap`. -/
theorem mmap_bounded
    {state : Libc}
    (bounded : state.space.Bounded)
    (addr length : UInt64)
    (prot flags fd : Int32)
    (offset : Int64) :
    (mmap state addr length prot flags fd offset).2.space.Bounded := by
  have called :=
    syscall_bounded bounded .mmap addr.toInt64 length.toInt64
      prot.toInt64 flags.toInt64 fd.toInt64 offset
  unfold mmap
  revert called
  cases rubyOnBareMetalSyscall state.space .mmap addr.toInt64
      length.toInt64 prot.toInt64 flags.toInt64 fd.toInt64 offset with
  | mk ret space =>
      intro called
      dsimp only
      split <;> exact called

/-- Nor does any call. -/
theorem call_bounded
    {state : Libc}
    (bounded : state.space.Bounded)
    (request : Request) :
    (call state request).2.space.Bounded := by
  cases request with
  | syscall n a1 a2 a3 a4 a5 a6 =>
      exact syscall_bounded bounded n a1 a2 a3 a4 a5 a6
  | mmap addr length prot flags fd offset =>
      exact mmap_bounded bounded addr length prot flags fd offset
  | mremap oldAddr oldSize newSize flags =>
      have mapped := mmap_bounded bounded 0 newSize 3 0x22 (-1) 0
      change
        (mremap state oldAddr oldSize newSize flags).2.space.Bounded
      unfold mremap
      revert mapped
      cases mmap state 0 newSize 3 0x22 (-1) 0 with
      | mk newAddr after =>
          intro mapped
          split
          · exact mapped
          · split
            · exact bounded
            · dsimp only
              split <;> exact mapped
  | _ =>
      exact bounded

/-- Both layers at boot; RAM and `errno` hold anything. -/
def Libc.boot (ram : Memory) (errno : Int64) : Libc where
  space := { ram := ram, mmapNext := mmapBase }
  errno := errno

/-- The cursor is never above its limit. -/
theorem anyCalls_bounded
    (ram : Memory)
    (errno : Int64)
    (requests : List Request) :
    (anyCalls.run (.boot ram errno) requests).space.Bounded := by
  have preserved :
      ∀ {state : Libc} {request : Request},
        state.space.Bounded →
        anyCalls.admits state request →
        (anyCalls.step state request).2.space.Bounded :=
    fun bounded _ => call_bounded bounded _
  have initially : (Libc.boot ram errno).space.Bounded := by
    change mmapBase.toNat ≤ mmapLimit.toNat
    decide
  exact anyCalls.run_invariant preserved initially
    (anyCalls.admissible_of_forall (fun _ _ => trivial) _ requests)

/-! ## Exact ends -/

/-- The next page, in exact arithmetic. -/
def nextPage (state : AddressSpace) : Nat :=
  Word.nextMultiple state.mmapNext.toNat 4096

/--
What the limit asks of a request with a given exact end: it succeeds if the
end is inside the area, and otherwise fails and changes nothing; the cursor
does not move back, and no byte above the limit is written.
-/
structure Limited
    (before : AddressSpace)
    (finish : Nat)
    (succeeds fails : Prop)
    (after : AddressSpace) : Prop where
  decides : succeeds ↔ finish ≤ mmapLimit.toNat
  refused : ¬succeeds → fails ∧ after = before
  onward :
    succeeds → before.mmapNext.toNat ≤ after.mmapNext.toNat
  above :
    succeeds →
    ∀ byte, mmapLimit.toNat ≤ byte → after.ram byte = before.ram byte

/-- How a request for pages is answered, by the end modulo `2 ^ 64`. -/
inductive Pages
    (before : AddressSpace)
    (length : UInt64) :
    Int64 × AddressSpace → Prop where
  | refused :
      mmapLimit.toNat < (nextPage before + length.toNat) % 2 ^ 64 →
      Pages before length (-Errno.ENOMEM, before)
  | granted
      {after : AddressSpace}
      {address : UInt64} :
      address.toNat < 2 ^ 63 →
      (nextPage before + length.toNat) % 2 ^ 64 ≤ mmapLimit.toNat →
      after.mmapNext.toNat =
        (nextPage before + length.toNat) % 2 ^ 64 →
      (∀ byte,
        nextPage before + length.toNat ≤ byte →
        after.ram byte = before.ram byte) →
      Pages before length (address.toInt64, after)

/-- A request that is refused keeps the limit. -/
theorem limited_of_refused
    {before : AddressSpace}
    {finish : Nat}
    {succeeds fails : Prop}
    (beyond : mmapLimit.toNat < finish)
    (notSucceeds : ¬succeeds)
    (failed : fails) :
    Limited before finish succeeds fails before where
  decides := iff_of_false notSucceeds (Nat.not_le.mpr beyond)
  refused _ := ⟨failed, rfl⟩
  onward succeeded := absurd succeeded notSucceeds
  above succeeded := absurd succeeded notSucceeds

/-- A request that is granted keeps it unless its end wraps around. -/
theorem limited_of_granted_iff
    {before after : AddressSpace}
    {length : UInt64}
    {succeeds fails : Prop}
    (inside :
      (nextPage before + length.toNat) % 2 ^ 64 ≤ mmapLimit.toNat)
    (cursor :
      after.mmapNext.toNat = (nextPage before + length.toNat) % 2 ^ 64)
    (frame :
      ∀ byte,
        nextPage before + length.toNat ≤ byte →
        after.ram byte = before.ram byte)
    (succeeded : succeeds) :
    Limited before (nextPage before + length.toNat) succeeds fails after ↔
      nextPage before + length.toNat < 2 ^ 64 := by
  have limit : mmapLimit.toNat = 0x1F000000 := rfl
  have onward : before.mmapNext.toNat ≤ nextPage before :=
    Word.le_nextMultiple (by omega) _
  constructor
  · intro limited
    have fits := limited.decides.mp succeeded
    omega
  · intro noWrap
    rw [Nat.mod_eq_of_lt noWrap] at inside cursor
    exact {
      decides := iff_of_true succeeded inside
      refused := fun notSucceeds => absurd succeeded notSucceeds
      onward := fun _ => by omega
      above := fun _ byte high => frame byte (by omega)
    }

/-- A request that is refused has not wrapped around and is too large. -/
theorem refused_exactly
    {before : AddressSpace}
    {length : UInt64}
    (bounded : before.Bounded)
    (beyond :
      mmapLimit.toNat < (nextPage before + length.toNat) % 2 ^ 64) :
    nextPage before + length.toNat < 2 ^ 64 ∧
      mmapLimit.toNat < nextPage before + length.toNat := by
  have limit : mmapLimit.toNat = 0x1F000000 := rfl
  have cursor : before.mmapNext.toNat ≤ 0x1F000000 := bounded
  have start :
      nextPage before =
        (before.mmapNext.toNat + 4095) / 4096 * 4096 := rfl
  have small := length.toNat_lt
  have noWrap : nextPage before + length.toNat < 2 ^ 64 := by omega
  exact ⟨noWrap, by rwa [Nat.mod_eq_of_lt noWrap] at beyond⟩

/-- A system call keeps the limit exactly if its end does not wrap around. -/
theorem Pages.limited_iff
    {before : AddressSpace}
    {length : UInt64}
    {result : Int64 × AddressSpace}
    (bounded : before.Bounded)
    (pages : Pages before length result) :
    Limited before (nextPage before + length.toNat) (¬result.1 < 0)
        (result.1 = -Errno.ENOMEM) result.2 ↔
      nextPage before + length.toNat < 2 ^ 64 := by
  cases pages with
  | refused beyond =>
      obtain ⟨noWrap, tooLarge⟩ := refused_exactly bounded beyond
      exact iff_of_true
        (limited_of_refused tooLarge (not_not.mpr negative_ENOMEM.1) rfl)
        noWrap
  | granted low inside cursor frame =>
      exact limited_of_granted_iff inside cursor frame
        (not_toInt64_lt_zero low)

/-- So does a libc function that translates its result. -/
theorem Pages.translated_limited_iff
    {state : Libc}
    {length : UInt64}
    {result : Int64 × AddressSpace}
    (bounded : state.space.Bounded)
    (pages : Pages state.space length result) :
    let translated := translate state result
    Limited state.space (nextPage state.space + length.toNat)
        (translated.1 ≠ mapFailed) (translated.2.errno = Errno.ENOMEM)
        translated.2.space ↔
      nextPage state.space + length.toNat < 2 ^ 64 := by
  cases pages with
  | refused beyond =>
      obtain ⟨noWrap, tooLarge⟩ := refused_exactly bounded beyond
      refine iff_of_true ?_ noWrap
      rw [translate_refused]
      exact limited_of_refused tooLarge (not_not.mpr rfl) rfl
  | granted low inside cursor frame =>
      rw [translate_address state _ low]
      exact limited_of_granted_iff inside cursor frame
        (ne_mapFailed low)

/-! ## The answers of the two layers -/

/-- The two branches of `sys_mmap`, by the end modulo `2 ^ 64`. -/
theorem sysMmap_branches
    {state : AddressSpace}
    (bounded : state.Bounded)
    (addr length : UInt64)
    (prot flags fd : Int32)
    (offset : Int64) :
    (mmapLimit.toNat < (nextPage state + length.toNat) % 2 ^ 64 ∧
        sysMmap state addr length prot flags fd offset =
          (-Errno.ENOMEM, state)) ∨
      ∃ (after : AddressSpace) (address : UInt64),
        (nextPage state + length.toNat) % 2 ^ 64 ≤ mmapLimit.toNat ∧
          sysMmap state addr length prot flags fd offset =
            (address.toInt64, after) ∧
          address.toNat = nextPage state ∧
          address.toNat < 2 ^ 63 ∧
          after.mmapNext.toNat =
            (nextPage state + length.toNat) % 2 ^ 64 ∧
          ∀ byte,
            nextPage state + length.toNat ≤ byte →
            after.ram byte = state.ram byte := by
  have limit : mmapLimit.toNat = 0x1F000000 := rfl
  obtain ⟨address, page, low, shape⟩ :=
    sysMmap_exact bounded addr length prot flags fd offset
  have start : address.toNat = nextPage state := page
  have finish :
      (address + length).toNat =
        (nextPage state + length.toNat) % 2 ^ 64 := by
    rw [UInt64.toNat_add, start]
  rw [← finish, shape]
  by_cases beyond : mmapLimit < address + length
  · rw [if_pos beyond]
    exact .inl ⟨UInt64.lt_iff_toNat_lt.mp beyond, rfl⟩
  · rw [if_neg beyond]
    refine .inr ⟨_, address,
      UInt64.le_iff_toNat_le.mp (UInt64.not_lt.mp beyond), rfl, start,
      by omega, rfl, ?_⟩
    intro byte high
    dsimp only
    split
    · exact Memory.fill_outside _ _ (by omega)
    · rfl

/-- `sys_mmap` compares the end modulo `2 ^ 64` with the limit. -/
theorem sysMmap_pages
    {state : AddressSpace}
    (bounded : state.Bounded)
    (addr length : UInt64)
    (prot flags fd : Int32)
    (offset : Int64) :
    Pages state length
      (sysMmap state addr length prot flags fd offset) := by
  obtain ⟨beyond, refused⟩ |
      ⟨after, address, inside, granted, -, low, cursor, frame⟩ :=
    sysMmap_branches bounded addr length prot flags fd offset
  · rw [refused]
    exact .refused beyond
  · rw [granted]
    exact .granted low inside cursor frame

/-- `sys_mremap` asks `sys_mmap` for more and copies inside of it. -/
theorem sysMremap_pages
    {state : AddressSpace}
    {oldSize newSize : UInt64}
    (bounded : state.Bounded)
    (grows : oldSize < newSize)
    (oldAddr : UInt64)
    (flags : Int32) :
    Pages state newSize
      (sysMremap state oldAddr oldSize newSize flags) := by
  have larger : oldSize.toNat < newSize.toNat :=
    UInt64.lt_iff_toNat_lt.mp grows
  unfold sysMremap
  by_cases error : IsErrorValue oldAddr
  · rw [if_pos error]
    exact sysMmap_pages bounded 0 newSize 3 0 (-1) 0
  · rw [if_neg error, if_neg (UInt64.not_le.mpr grows)]
    obtain ⟨beyond, refused⟩ |
        ⟨after, address, inside, granted, start, low, cursor, frame⟩ :=
      sysMmap_branches bounded 0 newSize 3 0 (-1) 0
    · simp only [refused, negative_ENOMEM, if_true]
      exact .refused beyond
    · simp only [granted, not_toInt64_lt_zero low, if_false,
        UInt64.toUInt64_toInt64]
      refine .granted low inside cursor ?_
      intro byte high
      exact (Memory.copy_outside _ _ (by omega)).trans (frame byte high)

/--
After any calls of either layer, `sys_mmap` for any length, and `sys_mremap`
and `mremap` for any larger size, respect the limit of the mapping area, if
and only if the exact end does not wrap around.
-/
theorem mmap_limit_iff
    (ram : Memory)
    (errno : Int64)
    (requests : List Request) :
    let state := anyCalls.run (.boot ram errno) requests
    let finish := fun length : UInt64 =>
      nextPage state.space + length.toNat
    (∀ (addr length : UInt64) (prot flags fd : Int32) (offset : Int64),
      let result :=
        sysMmap state.space addr length prot flags fd offset
      Limited state.space (finish length) (¬result.1 < 0)
          (result.1 = -Errno.ENOMEM) result.2 ↔
        finish length < 2 ^ 64) ∧
      ∀ (oldAddr oldSize newSize : UInt64) (flags : Int32),
        oldSize < newSize →
        let result :=
          sysMremap state.space oldAddr oldSize newSize flags
        let libcResult := mremap state oldAddr oldSize newSize flags
        (Limited state.space (finish newSize) (¬result.1 < 0)
            (result.1 = -Errno.ENOMEM) result.2 ↔
          finish newSize < 2 ^ 64) ∧
          (Limited state.space (finish newSize)
              (libcResult.1 ≠ mapFailed)
              (libcResult.2.errno = Errno.ENOMEM) libcResult.2.space ↔
            finish newSize < 2 ^ 64) := by
  intro state finish
  have bounded : state.space.Bounded :=
    anyCalls_bounded ram errno requests
  refine ⟨?_, ?_⟩
  · intro addr length prot flags fd offset
    exact (sysMmap_pages bounded addr length prot flags fd
      offset).limited_iff bounded
  · intro oldAddr oldSize newSize flags grows
    have pages := sysMremap_pages bounded grows oldAddr flags
    rw [mremap_eq_translate bounded]
    exact ⟨pages.limited_iff bounded,
      pages.translated_limited_iff bounded⟩

/-- A mapping that grows from one page to two. -/
theorem mmap_limit_grown :
    let state := Libc.boot Memory.zero 0
    let result := sysMremap state.space 0x10000000 4096 8192 0
    Limited state.space (nextPage state.space + 8192) (¬result.1 < 0)
      (result.1 = -Errno.ENOMEM) result.2 :=
  ((mmap_limit_iff Memory.zero 0 []).2 0x10000000 4096 8192 0
    (by decide)).1.mpr (by decide)

/-- A negative length moves the cursor down to zero. -/
theorem mmap_wraps :
    let state := Libc.boot Memory.zero 0
    let result :=
      sysMmap state.space 0 0xFFFFFFFFF0000000 0 0 (-1) 0
    ¬Limited state.space (nextPage state.space + 0xFFFFFFFFF0000000)
      (¬result.1 < 0) (result.1 = -Errno.ENOMEM) result.2 := by
  intro state result limited
  have fits := limited.decides.mp (by decide)
  exact absurd fits (by decide)

end RubyOnBareMetal.Mmap
