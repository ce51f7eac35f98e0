import Mathlib.Data.Set.Lattice
import Mathlib.Order.CompletePartialOrder
import Mathlib.Order.Interval.Set.Basic
import RubyOnBareMetal.Foundation.Machine
import RubyOnBareMetal.Mmap.AddressSpace

namespace RubyOnBareMetal.Mmap

open Foundation

/-!
# Mappings over whole runs

Clients request pages through either layer in any mixture.  A session records
the mappings they were given; `Sound` says that the page-rounded mappings are
disjoint and below the cursor, and `Evolution` says how one request changes
the mappings and the bytes inside them.
-/

/-! ## The libc layer translates the system calls -/

/-- The pointer and `errno` a libc function makes of a system call. -/
def translate
    (state : Libc)
    (result : Int64 × AddressSpace) :
    UInt64 × Libc :=
  if result.1 = -Errno.ENOMEM then
    (mapFailed, { space := result.2, errno := Errno.ENOMEM })
  else
    (result.1.toUInt64, { state with space := result.2 })

/-- An address below half of the address space is no error number. -/
theorem toInt64_ne_ENOMEM
    {address : UInt64}
    (low : address.toNat < 2 ^ 63) :
    address.toInt64 ≠ -Errno.ENOMEM := by
  intro same
  apply not_toInt64_lt_zero low
  rw [same]
  decide

/-- A successful result is passed on as an address. -/
theorem translate_address
    (state : Libc)
    {address : UInt64}
    (after : AddressSpace)
    (low : address.toNat < 2 ^ 63) :
    translate state (address.toInt64, after) =
      (address, { state with space := after }) := by
  simp [translate, toInt64_ne_ENOMEM low]

/-- A refusal becomes `MAP_FAILED` with `errno` set. -/
theorem translate_refused (state : Libc) (after : AddressSpace) :
    translate state (-Errno.ENOMEM, after) =
      (mapFailed, { space := after, errno := Errno.ENOMEM }) := by
  simp [translate]

/-- An address below half of the address space is not `MAP_FAILED`. -/
theorem ne_mapFailed
    {address : UInt64}
    (low : address.toNat < 2 ^ 63) :
    address ≠ mapFailed := by
  rintro rfl
  have value : mapFailed.toNat = 2 ^ 64 - 1 := rfl
  omega

/-- The result of a call that refuses is a negated error number. -/
theorem negative_ENOMEM :
    -Errno.ENOMEM < 0 ∧ -4096 < -Errno.ENOMEM := by
  decide

/-- The libc `mmap` translates the system call. -/
theorem mmap_eq_translate
    {state : Libc}
    (bounded : state.space.Bounded)
    (addr length : UInt64)
    (prot flags fd : Int32)
    (offset : Int64) :
    mmap state addr length prot flags fd offset =
      translate state
        (sysMmap state.space addr length prot flags fd offset) := by
  have limit : mmapLimit.toNat = 0x1F000000 := rfl
  have routed :
      rubyOnBareMetalSyscall state.space .mmap
          addr.toInt64 length.toInt64 prot.toInt64
          flags.toInt64 fd.toInt64 offset =
        sysMmap state.space addr length prot flags fd offset := by
    simp [rubyOnBareMetalSyscall]
  obtain ⟨address, -, low, shape⟩ :=
    sysMmap_exact bounded addr length prot flags fd offset
  have lowHalf : address.toNat < 2 ^ 63 := by omega
  unfold mmap
  by_cases beyond : mmapLimit < address + length
  · rw [routed, shape, if_pos beyond, translate_refused]
    simp [negative_ENOMEM]
  · rw [routed, shape, if_neg beyond, translate_address state _ lowHalf]
    simp [not_toInt64_lt_zero lowHalf]

/--
The two implementations of `mremap` agree: the libc function is the system
call with its result translated, from every state whose cursor is not above
its limit.
-/
theorem mremap_eq_translate
    {state : Libc}
    (bounded : state.space.Bounded)
    (oldAddr oldSize newSize : UInt64)
    (flags : Int32) :
    mremap state oldAddr oldSize newSize flags =
      translate state
        (sysMremap state.space oldAddr oldSize newSize flags) := by
  have limit : mmapLimit.toNat = 0x1F000000 := rfl
  -- The flags 0x22 and 0 that the two layers pass are never looked at.
  have sameCall :
      mmap state 0 newSize 3 0x22 (-1) 0 =
        translate state (sysMmap state.space 0 newSize 3 0 (-1) 0) :=
    mmap_eq_translate bounded 0 newSize 3 0x22 (-1) 0
  obtain ⟨address, -, low, shape⟩ :=
    sysMmap_exact bounded 0 newSize 3 0 (-1) 0
  have lowHalf : address.toNat < 2 ^ 63 := by omega
  unfold mremap sysMremap
  rw [sameCall]
  by_cases error : IsErrorValue oldAddr
  · rw [if_pos error, if_pos error]
  · rw [if_neg error, if_neg error]
    by_cases fits : newSize ≤ oldSize
    · rw [if_pos fits, if_pos fits]
      have noError : oldAddr.toInt64 ≠ -Errno.ENOMEM := by
        intro same
        apply error
        have value := congrArg Int64.toUInt64 same
        rw [UInt64.toUInt64_toInt64] at value
        rw [value]
        decide
      simp [translate, noError]
    · rw [if_neg fits, if_neg fits]
      by_cases beyond : mmapLimit < address + newSize
      · rw [shape, if_pos beyond]
        simp [translate, negative_ENOMEM]
      · rw [shape, if_neg beyond, translate_address state _ lowHalf]
        simp only [ne_mapFailed lowHalf,
          not_toInt64_lt_zero lowHalf, ↓reduceIte,
          UInt64.toUInt64_toInt64]
        rw [translate_address state _ lowHalf]

/-! ## Sessions -/

/-- A request of a client, through one of the two layers, or a store. -/
inductive Request where
  | syscall (n : SyscallNumber) (a1 a2 a3 a4 a5 a6 : Int64)
  | mmap
      (addr length : UInt64)
      (prot flags fd : Int32)
      (offset : Int64)
  | mremap (oldAddr oldSize newSize : UInt64) (flags : Int32)
  | munmap (addr length : UInt64)
  | mprotect (addr len : UInt64) (prot : Int32)
  | madvise (addr length : UInt64) (advice : Int32)
  | write (address : UInt64) (value : UInt8)
  deriving Repr, DecidableEq

/-- What the client gets back. -/
inductive Response where
  | long (value : Int64)
  | pointer (value : UInt64)
  | status (value : Int32)
  | done
  deriving Repr, DecidableEq

/-- Pages handed to a client. -/
structure Mapping where
  address : UInt64
  length : UInt64
  deriving Repr, DecidableEq

namespace Mapping

/-- The length rounded up to whole pages. -/
def rounded (mapping : Mapping) : Nat :=
  (mapping.length.toNat + 4095) / 4096 * 4096

/-- The addresses of the pages of a mapping. -/
def pages (mapping : Mapping) : Set Nat :=
  Set.Ico mapping.address.toNat
    (mapping.address.toNat + mapping.rounded)

/-- One mapping ends before the other begins. -/
def Apart (first second : Mapping) : Prop :=
  first.address.toNat + first.rounded ≤ second.address.toNat ∨
    second.address.toNat + second.rounded ≤ first.address.toNat

theorem Apart.symm
    {first second : Mapping}
    (apart : Apart first second) :
    Apart second first :=
  Or.symm apart

/-- Mappings that are apart share no page. -/
theorem Apart.disjoint
    {first second : Mapping}
    (apart : Apart first second) :
    Disjoint first.pages second.pages := by
  rw [Set.disjoint_left]
  intro query inFirst inSecond
  simp only [pages, Set.mem_Ico] at inFirst inSecond
  unfold Apart at apart
  omega

/-- The bytes asked for lie in the pages handed out. -/
theorem length_le_rounded (mapping : Mapping) :
    mapping.length.toNat ≤ mapping.rounded := by
  unfold rounded
  omega

/-- A shorter mapping has no more pages. -/
theorem rounded_le
    {first second : Mapping}
    (shorter : first.length ≤ second.length) :
    first.rounded ≤ second.rounded := by
  have bound := UInt64.le_iff_toNat_le.mp shorter
  unfold rounded
  omega

end Mapping

namespace Request

/-- The length and protection of a request for new pages. -/
def mmap? : Request → Option (UInt64 × Int32)
  | .syscall .mmap _ a2 a3 _ _ _ => some (a2.toUInt64, a3.toInt32)
  | .mmap _ length prot _ _ _ => some (length, prot)
  | _ => none

/-- The old address, old size and new size of a request to resize. -/
def mremap? : Request → Option (UInt64 × UInt64 × UInt64)
  | .syscall .mremap a1 a2 a3 _ _ _ =>
      some (a1.toUInt64, a2.toUInt64, a3.toUInt64)
  | .mremap oldAddr oldSize newSize _ =>
      some (oldAddr, oldSize, newSize)
  | _ => none

end Request

namespace Response

/-- The address in a successful answer to a request for pages. -/
def address? : Response → Option UInt64
  | .long value =>
      if value < 0 ∧ -4096 < value then none else some value.toUInt64
  | .pointer value => if value = mapFailed then none else some value
  | _ => none

end Response

/-- Run one request. -/
def call (state : Libc) : Request → Response × Libc
  | .syscall n a1 a2 a3 a4 a5 a6 =>
      let (ret, space) :=
        rubyOnBareMetalSyscall state.space n a1 a2 a3 a4 a5 a6
      (.long ret, { state with space := space })
  | .mmap addr length prot flags fd offset =>
      let (ptr, after) := mmap state addr length prot flags fd offset
      (.pointer ptr, after)
  | .mremap oldAddr oldSize newSize flags =>
      let (ptr, after) := mremap state oldAddr oldSize newSize flags
      (.pointer ptr, after)
  | .munmap addr length =>
      (.status (munmap addr length), state)
  | .mprotect addr len prot =>
      (.status (mprotect addr len prot), state)
  | .madvise addr length advice =>
      (.status (madvise addr length advice), state)
  | .write address value =>
      (.done, {
        state with
        space := {
          state.space with
          ram := state.space.ram.write address.toNat value
        }
      })

/--
The mappings after a request.  A shrunk mapping replaces the one it was;
unmapped and moved mappings stay on record, since their pages are never
handed out again.
-/
def recorded
    (mappings : List Mapping)
    (request : Request)
    (response : Response) :
    List Mapping :=
  match request.mmap?, request.mremap?, response.address? with
  | some (length, _), _, some address =>
      ⟨address, length⟩ :: mappings
  | none, some (oldAddr, oldSize, newSize), some address =>
      if IsErrorValue oldAddr ∨ oldSize < newSize then
        ⟨address, newSize⟩ :: mappings
      else
        ⟨address, newSize⟩ :: mappings.erase ⟨oldAddr, oldSize⟩
  | _, _, _ => mappings

/-- The state of the machine and the mappings its clients were given. -/
structure Session where
  libc : Libc
  mappings : List Mapping

namespace Session

/-- At boot the cursor is at its base; RAM and `errno` hold anything. -/
def initial (ram : Memory) (errno : Int64) : Session where
  libc := { space := { ram := ram, mmapNext := mmapBase }, errno := errno }
  mappings := []

/-- The bytes of RAM. -/
def ram (session : Session) : Memory :=
  session.libc.space.ram

/-- Run one request and record the mapping it made. -/
def step (session : Session) (request : Request) : Response × Session :=
  let (response, after) := call session.libc request
  (response, {
    libc := after
    mappings := recorded session.mappings request response
  })

/-- A byte lies in a mapping. -/
def Mapped (session : Session) (address : Nat) : Prop :=
  ∃ mapping ∈ session.mappings,
    mapping.address.toNat ≤ address ∧
      address < mapping.address.toNat + mapping.length.toNat

instance (session : Session) (address : Nat) :
    Decidable (session.Mapped address) :=
  List.decidableBEx _ session.mappings

/--
Lengths stay below half of the address space, `mremap` is given a mapping or
an error value, and clients store only into mappings.
-/
def Admits (session : Session) (request : Request) : Prop :=
  (∀ asked ∈ request.mmap?, asked.1.toNat < 2 ^ 63) ∧
    (∀ asked ∈ request.mremap?,
      asked.2.2.toNat < 2 ^ 63 ∧
        (IsErrorValue asked.1 ∨
          (⟨asked.1, asked.2.1⟩ : Mapping) ∈ session.mappings)) ∧
    match request with
    | .write address _ => session.Mapped address.toNat
    | _ => True

instance (session : Session) (request : Request) :
    Decidable (session.Admits request) :=
  @instDecidableAnd _ _
    (Option.decidableForallMem request.mmap?)
    (@instDecidableAnd _ _
      (Option.decidableForallMem request.mremap?)
      (match request with
        | .write address _ =>
            inferInstanceAs (Decidable (session.Mapped address.toNat))
        | .syscall .. | .mmap .. | .mremap .. | .munmap ..
        | .mprotect .. | .madvise .. =>
            inferInstanceAs (Decidable True)))

end Session

/-- Clients of either layer that resize only what they were given. -/
def clients : Machine Session Request Response where
  step := Session.step
  admits := Session.Admits

instance (session : Session) (request : Request) :
    Decidable (clients.admits session request) :=
  inferInstanceAs (Decidable (session.Admits request))

end RubyOnBareMetal.Mmap
