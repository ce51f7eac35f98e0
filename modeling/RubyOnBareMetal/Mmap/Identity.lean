import RubyOnBareMetal.Boot.PageTables
import RubyOnBareMetal.Mmap.Mappings

namespace RubyOnBareMetal.Mmap

open Foundation Boot

/-!
# Mappings are mapped to themselves

The addresses that the two system calls hand out are physical ones.  They are
of use because the page tables of `boot/boot.S`, which stay in force, lead
from each of them to itself.
-/

/-- A system call that hands out addresses. -/
inductive SystemCall where
  | mmap
      (addr length : UInt64)
      (prot flags fd : Int32)
      (offset : Int64)
  | mremap (oldAddr oldSize newSize : UInt64) (flags : Int32)
  deriving Repr, DecidableEq

/-- The bytes of a range are bytes of a mapping. -/
def Mapping.Contains (mapping : Mapping) (address length : UInt64) : Prop :=
  mapping.address.toNat ≤ address.toNat ∧
    address.toNat + length.toNat ≤
      mapping.address.toNat + mapping.length.toNat
  deriving Decidable

namespace SystemCall

/-- The length that is asked for. -/
def length : SystemCall → UInt64
  | mmap _ length _ _ _ _ => length
  | mremap _ _ newSize _ => newSize

/-- Run one call. -/
def perform (space : AddressSpace) : SystemCall → Int64 × AddressSpace
  | mmap addr length prot flags fd offset =>
      sysMmap space addr length prot flags fd offset
  | mremap oldAddr oldSize newSize flags =>
      sysMremap space oldAddr oldSize newSize flags

/--
A result that is an address is one of new pages, unless `sys_mremap` returns
the address it was given; that is a mapping if it was part of one.
-/
def Grants (mappings : List Mapping) : SystemCall → Prop
  | mmap _ _ _ _ _ _ => True
  | mremap oldAddr oldSize newSize _ =>
      IsErrorValue oldAddr ∨ oldSize < newSize ∨
        ∃ mapping ∈ mappings, mapping.Contains oldAddr newSize

instance (mappings : List Mapping) :
    ∀ call : SystemCall, Decidable (call.Grants mappings)
  | mmap _ _ _ _ _ _ => inferInstanceAs (Decidable True)
  | mremap _ _ _ _ =>
      @instDecidableOr _ _ inferInstance
        (@instDecidableOr _ _ inferInstance (List.decidableBEx _ mappings))

end SystemCall

/-- The address space and every mapping that has been returned so far. -/
structure Grantor where
  space : AddressSpace
  mappings : List Mapping

namespace Grantor

/-- At boot; RAM holds anything. -/
def initial (ram : Memory) : Grantor where
  space := { ram := ram, mmapNext := mmapBase }
  mappings := []

/-- The mappings after a call with this result. -/
def granted
    (mappings : List Mapping)
    (call : SystemCall)
    (result : Int64) :
    List Mapping :=
  match (Response.long result).address? with
  | none => mappings
  | some address =>
      if call.Grants mappings then
        ⟨address, call.length⟩ :: mappings
      else
        mappings

/-- Run one call and note the mapping it returns. -/
def step (grantor : Grantor) (call : SystemCall) : Int64 × Grantor :=
  let result := call.perform grantor.space
  (result.1, {
    space := result.2
    mappings := granted grantor.mappings call result.1
  })

end Grantor

/-- The two system calls, given any arguments with lengths of a `long`. -/
def systemCalls : Machine Grantor SystemCall Int64 where
  step := Grantor.step
  admits _ call := call.length.toNat < 2 ^ 63

instance (grantor : Grantor) (call : SystemCall) :
    Decidable (systemCalls.admits grantor call) :=
  inferInstanceAs (Decidable (_ < _))

/-- Every mapping lies in the mapping area. -/
structure Grantor.Inside (grantor : Grantor) : Prop where
  within : grantor.space.Within
  mapped :
    ∀ mapping ∈ grantor.mappings,
      mapping.address.toNat + mapping.length.toNat ≤ mmapLimit.toNat

namespace Grantor

/-- The result of a refused call is no address. -/
theorem granted_refused (mappings : List Mapping) (call : SystemCall) :
    granted mappings call (-Errno.ENOMEM) = mappings := by
  have noAddress :
      Response.address? (.long (-Errno.ENOMEM)) = none := by decide
  simp only [granted, noAddress]

/-- The result of any other call is one. -/
theorem granted_address
    (mappings : List Mapping)
    (call : SystemCall)
    {address : UInt64}
    (low : address.toNat < 2 ^ 63) :
    granted mappings call address.toInt64 =
      if call.Grants mappings then
        ⟨address, call.length⟩ :: mappings
      else
        mappings := by
  have isAddress :
      Response.address? (.long address.toInt64) = some address := by
    simp [Response.address?, not_toInt64_lt_zero low]
  simp only [granted, isAddress]

/-- A call that grants nothing keeps the mappings inside. -/
theorem Inside.refused
    {grantor : Grantor}
    {call : SystemCall}
    (inside : grantor.Inside)
    (result : call.perform grantor.space = (-Errno.ENOMEM, grantor.space)) :
    (systemCalls.step grantor call).2.Inside := by
  change (Grantor.step grantor call).2.Inside
  rw [Grantor.step, result]
  dsimp only
  rw [granted_refused]
  exact inside

/-- A call that places new pages keeps them inside. -/
theorem Inside.placed
    {grantor : Grantor}
    {call : SystemCall}
    (inside : grantor.Inside)
    {after : AddressSpace}
    {address : UInt64}
    (placed : Placed grantor.space after address call.length)
    (result : call.perform grantor.space = (address.toInt64, after)) :
    (systemCalls.step grantor call).2.Inside := by
  have top := placed.top
  have bound := placed.bound
  change (Grantor.step grantor call).2.Inside
  rw [Grantor.step, result]
  dsimp only
  rw [granted_address _ _ placed.low]
  refine ⟨placed.within inside.within, ?_⟩
  split
  · refine List.forall_mem_cons.mpr ⟨?_, inside.mapped⟩
    dsimp only
    omega
  · exact inside.mapped

/-- So does a call that returns the range it was given. -/
theorem Inside.kept
    {grantor : Grantor}
    {oldAddr oldSize newSize : UInt64}
    {flags : Int32}
    (inside : grantor.Inside)
    (noError : ¬IsErrorValue oldAddr)
    (shrinks : newSize ≤ oldSize)
    (result :
      sysMremap grantor.space oldAddr oldSize newSize flags =
        (oldAddr.toInt64, grantor.space)) :
    (systemCalls.step grantor
      (.mremap oldAddr oldSize newSize flags)).2.Inside := by
  have limit : mmapLimit.toNat = 0x1F000000 := by decide
  change (Grantor.step grantor _).2.Inside
  rw [Grantor.step, SystemCall.perform, result]
  dsimp only
  refine ⟨inside.within, ?_⟩
  by_cases grants :
      (SystemCall.mremap oldAddr oldSize newSize flags).Grants
        grantor.mappings
  · rcases grants with error | grows | part
    · exact absurd error noError
    · exact absurd grows (UInt64.not_lt.mpr shrinks)
    · obtain ⟨mapping, isMapping, contains⟩ := part
      have bound := inside.mapped mapping isMapping
      have ends := contains.2
      rw [granted_address _ _ (by omega)]
      split
      · refine List.forall_mem_cons.mpr ⟨?_, inside.mapped⟩
        exact Nat.le_trans ends bound
      · exact inside.mapped
  · have nothing :
        granted grantor.mappings (.mremap oldAddr oldSize newSize flags)
          oldAddr.toInt64 = grantor.mappings := by
      unfold granted
      split
      · rfl
      · exact if_neg grants
    rw [nothing]
    exact inside.mapped

/-- Every call keeps them inside. -/
theorem Inside.step
    {grantor : Grantor}
    {call : SystemCall}
    (inside : grantor.Inside)
    (small : systemCalls.admits grantor call) :
    (systemCalls.step grantor call).2.Inside := by
  cases call with
  | mmap addr length prot flags fd offset =>
      have fits : length.toNat < 2 ^ 63 := small
      have outcome :=
        sysMmap_outcome inside.within fits addr prot flags fd offset
      generalize shape :
        sysMmap grantor.space addr length prot flags fd offset = result
        at outcome
      cases outcome with
      | refused =>
          exact inside.refused shape
      | placed placed zeroed =>
          exact inside.placed placed shape
  | mremap oldAddr oldSize newSize flags =>
      have fits : newSize.toNat < 2 ^ 63 := small
      have outcome :=
        sysMremap_outcome inside.within fits oldAddr oldSize flags
      generalize shape :
        sysMremap grantor.space oldAddr oldSize newSize flags = result
        at outcome
      cases outcome with
      | refused =>
          exact inside.refused shape
      | fresh error placed zeroed =>
          exact inside.placed placed shape
      | kept noError shrinks =>
          exact inside.kept noError shrinks shape
      | moved noError grows placed copied zeroed =>
          exact inside.placed placed shape

/-- In every run from boot all mappings lie in the mapping area. -/
theorem inside_run
    {ram : Memory}
    {calls : List SystemCall}
    (admissible : systemCalls.Admissible (initial ram) calls) :
    (systemCalls.run (initial ram) calls).Inside := by
  refine systemCalls.run_invariant (fun inside small => inside.step small)
    ⟨⟨Nat.le_refl _, ?_⟩, nofun⟩ admissible
  change mmapBase.toNat ≤ mmapLimit.toNat
  decide

end Grantor

/--
Whatever the boot code finds in registers and memory, as long as the direction
flag is clear, so that it clears its BSS, its tables translate every address
below 512 MiB to itself, may be written through there, and translate no other
canonical address.  So every byte of every mapping that a run of the two
system calls returns is translated to itself.
-/
theorem boot_tables_map_mappings
    (image : BootImage)
    {processor : Processor}
    (upwards : processor.df = false)
    (spare : Nat) :
    ∃ booted,
      processor.start image (256 + spare) = some booted ∧
        (∀ address : UInt64,
          address.toNat < 0x20000000 →
          Paging.walk booted.memory booted.cr3 address =
            some { physical := address.toNat, writable := true }) ∧
        (∀ address : UInt64,
          Paging.Canonical address →
          0x20000000 ≤ address.toNat →
          Paging.walk booted.memory booted.cr3 address = none) ∧
        ∀ (ram : Memory) (calls : List SystemCall),
          systemCalls.Admissible (Grantor.initial ram) calls →
          ∀ mapping ∈
              (systemCalls.run (Grantor.initial ram) calls).mappings,
            ∀ address : UInt64,
              mapping.address.toNat ≤ address.toNat →
              address.toNat <
                mapping.address.toNat + mapping.length.toNat →
              Paging.walk booted.memory booted.cr3 address =
                some { physical := address.toNat, writable := true } := by
  obtain ⟨booted, started, root, tabled⟩ :=
    Processor.start_tabled image (Nat.le_add_right 256 spare) upwards
  have limit : mmapLimit.toNat = 0x1F000000 := by decide
  refine ⟨booted, started, ?_, ?_, ?_⟩
  · exact fun address low => walk_low tabled root low
  · exact fun address canonical high => walk_high tabled root canonical high
  · intro ram calls admissible mapping isMapping address low high
    have bound := (Grantor.inside_run admissible).mapped mapping isMapping
    exact walk_low tabled root (by omega)

/-- Registers as a loader may leave them, and memory that is not zero. -/
def leftByLoader : Processor where
  eax := 0x2BADB002
  ecx := 0
  edx := 0
  edi := 0
  df := false
  cr3 := 0
  memory _ := 0xCC

theorem boot_tables_map_mappings_onePage :
    ∃ booted,
      leftByLoader.start ⟨4096, by decide⟩ 256 = some booted ∧
        Paging.walk booted.memory booted.cr3 0x1FFFFFFF =
          some { physical := 0x1FFFFFFF, writable := true } ∧
        Paging.walk booted.memory booted.cr3 0x20000000 = none := by
  obtain ⟨booted, started, low, high, -⟩ :=
    @boot_tables_map_mappings ⟨4096, by decide⟩ leftByLoader rfl 0
  exact ⟨booted, started, low _ (by decide),
    high _ (by decide) (by decide)⟩

end RubyOnBareMetal.Mmap
