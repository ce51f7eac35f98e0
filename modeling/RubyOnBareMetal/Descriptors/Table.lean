import Mathlib.Data.Fintype.Pi
import RubyOnBareMetal.EmbeddedFiles
import RubyOnBareMetal.Errno
import RubyOnBareMetal.Foundation.Machine

namespace RubyOnBareMetal.Descriptors

open Foundation

/-!
# The descriptor table of `compat/ruby_on_bare_metal_syscall.c`

The system calls that read or change `fd_table`.  A buffer that a call fills
is part of its reply.  The console behind descriptors 0, 1 and 2 is a
parameter: the calls only pass bytes to and from `serial_read` and
`serial_write`, which the build maps to the serial port or to the UEFI
console.
-/

/-- `RUBY_ON_BARE_METAL_MAX_FD`. -/
abbrev maxFd : Nat := 64

/-- `struct fd_entry`; the data pointer of the console entries is null. -/
structure FdEntry where
  used : Bool
  data : Option (List UInt8)
  size : UInt64
  offset : UInt64
  deriving Repr, DecidableEq

/-- An entry of zeroed storage, and what `sys_close` leaves behind. -/
def FdEntry.closed : FdEntry where
  used := false
  data := none
  size := 0
  offset := 0

/-- The entry of a console descriptor. -/
def FdEntry.stdio : FdEntry where
  used := true
  data := none
  size := 0
  offset := 0

/-- `fd_table`. -/
abbrev Table := Fin maxFd → FdEntry

/-- The initialiser of `fd_table`: stdin, stdout and stderr. -/
def Table.initial : Table :=
  fun slot => if slot.val < 3 then .stdio else .closed

/-- `serial_read` and `serial_write`. -/
structure SerialPort (Console : Type) where
  read : Console → UInt64 → List UInt8 × Console
  write : Console → List UInt8 → Console

/-- A console without input that drops its output. -/
def SerialPort.silent : SerialPort Unit where
  read _ _ := ([], ())
  write _ _ := ()

/-- The table and the state of the console. -/
structure Kernel (Console : Type) where
  fdTable : Table
  console : Console

/-- The fields of `struct stat` that the calls fill in. -/
structure Stat where
  stMode : UInt32
  stRdev : UInt64
  stSize : Int64
  deriving Repr, DecidableEq

/-- A returned `long` and what the call stored through its pointers. -/
structure Reply where
  ret : Int64
  buffer : List UInt8 := []
  stat : Option Stat := none
  pipefd : Option (Int64 × Int64) := none
  deriving Repr, DecidableEq

/-- The table index of a descriptor that passes the range check. -/
def slot? (fd : Int32) : Option (Fin maxFd) :=
  if inside : 0 ≤ fd.toInt ∧ fd.toInt < 64 then
    some ⟨fd.toInt.toNat, by
      show fd.toInt.toNat < 64
      omega⟩
  else
    none

/-- A table index as a returned descriptor. -/
def descriptor (slot : Fin maxFd) : Int64 :=
  Int64.ofNat slot.val

/-- The slots the allocating loops look at, in order. -/
def scannedSlots : List (Fin maxFd) :=
  (List.finRange maxFd).drop 3

/-- The first slot from 3 on that is not in use. -/
def freeSlot? (table : Table) : Option (Fin maxFd) :=
  scannedSlots.find? fun slot => !(table slot).used

variable {Console : Type}

/-! ## The system calls -/

/-- `sys_read`. -/
def sysRead
    (serial : SerialPort Console)
    (kernel : Kernel Console)
    (fd : Int32)
    (count : UInt64) :
    Reply × Kernel Console :=
  if fd = 0 then
    let (bytes, console) := serial.read kernel.console count
    ({ ret := Int64.ofNat bytes.length, buffer := bytes },
      { kernel with console := console })
  else
    match slot? fd with
    | none => ({ ret := 0 }, kernel)
    | some slot =>
        let entry := kernel.fdTable slot
        match entry.data with
        | none => ({ ret := 0 }, kernel)
        | some data =>
            if 3 ≤ fd ∧ entry.used = true then
              let remaining := entry.size - entry.offset
              if remaining = 0 then
                ({ ret := 0 }, kernel)
              else
                let toRead :=
                  if count < remaining then count else remaining
                ({
                  ret := toRead.toInt64
                  buffer :=
                    (data.drop entry.offset.toNat).take toRead.toNat
                }, {
                  kernel with
                  fdTable :=
                    Function.update kernel.fdTable slot
                      { entry with offset := entry.offset + toRead }
                })
            else
              ({ ret := 0 }, kernel)

/-- `sys_write`; the count is the length of the buffer. -/
def sysWrite
    (serial : SerialPort Console)
    (kernel : Kernel Console)
    (fd : Int32)
    (buf : List UInt8) :
    Reply × Kernel Console :=
  if fd = 1 ∨ fd = 2 then
    ({ ret := Int64.ofNat buf.length },
      { kernel with console := serial.write kernel.console buf })
  else
    ({ ret := -Errno.EBADF }, kernel)

/-- `sys_open`. -/
def sysOpen
    (tables : EmbeddedTables)
    (kernel : Kernel Console)
    (path : Option CString)
    (_flags _mode : Int32) :
    Reply × Kernel Console :=
  match rubyOnBareMetalEmbeddedFileData tables path with
  | none => ({ ret := -Errno.ENOENT }, kernel)
  | some file =>
      match freeSlot? kernel.fdTable with
      | none => ({ ret := -Errno.EMFILE }, kernel)
      | some slot =>
          ({ ret := descriptor slot }, {
            kernel with
            fdTable :=
              Function.update kernel.fdTable slot {
                used := true
                data := some file.data
                size := file.size
                offset := 0
              }
          })

/-- `sys_close`. -/
def sysClose (kernel : Kernel Console) (fd : Int32) :
    Reply × Kernel Console :=
  match slot? fd with
  | none => ({ ret := -Errno.EBADF }, kernel)
  | some slot =>
      ({ ret := 0 }, {
        kernel with
        fdTable := Function.update kernel.fdTable slot .closed
      })

/-- `sys_fstat`. -/
def sysFstat (kernel : Kernel Console) (fd : Int32) :
    Reply × Kernel Console :=
  match slot? fd with
  | none => ({ ret := -Errno.EBADF }, kernel)
  | some slot =>
      if fd ≤ 2 then
        ({ ret := 0, stat := some ⟨0o020666, 0x0501, 0⟩ }, kernel)
      else
        match (kernel.fdTable slot).data with
        | some _ =>
            ({
              ret := 0
              stat :=
                some ⟨0o100444, 0, (kernel.fdTable slot).size.toInt64⟩
            }, kernel)
        | none =>
            ({ ret := 0, stat := some ⟨0o100444, 0, 0⟩ }, kernel)

/-- `sys_dup`. -/
def sysDup (kernel : Kernel Console) (oldfd : Int32) :
    Reply × Kernel Console :=
  match slot? oldfd with
  | none => ({ ret := -Errno.EBADF }, kernel)
  | some old =>
      match freeSlot? kernel.fdTable with
      | none => ({ ret := -Errno.EMFILE }, kernel)
      | some new =>
          ({ ret := descriptor new }, {
            kernel with
            fdTable :=
              Function.update kernel.fdTable new (kernel.fdTable old)
          })

/-- `sys_dup2`. -/
def sysDup2 (kernel : Kernel Console) (oldfd newfd : Int32) :
    Reply × Kernel Console :=
  match slot? oldfd, slot? newfd with
  | some old, some new =>
      ({ ret := newfd.toInt64 }, {
        kernel with
        fdTable :=
          Function.update kernel.fdTable new (kernel.fdTable old)
      })
  | _, _ => ({ ret := -Errno.EBADF }, kernel)

/-- `sys_dup3`. -/
def sysDup3 (kernel : Kernel Console) (oldfd newfd _flags : Int32) :
    Reply × Kernel Console :=
  sysDup2 kernel oldfd newfd

/-- `fd_table[i].used = 1`. -/
def markUsed (table : Table) (slot : Fin maxFd) : Table :=
  Function.update table slot { table slot with used := true }

/-- The loop of the two pipe cases, over the slots that are left. -/
def pipeScan :
    List (Fin maxFd) →
    Table →
    Option (Fin maxFd) →
    Option (Fin maxFd) →
    Table × Option (Fin maxFd) × Option (Fin maxFd)
  | [], table, r, w => (table, r, w)
  | slot :: rest, table, r, w =>
      if r.isSome ∧ w.isSome then
        (table, r, w)
      else if (table slot).used = false then
        match r with
        | none => pipeScan rest (markUsed table slot) (some slot) w
        | some _ => pipeScan rest (markUsed table slot) r (some slot)
      else
        pipeScan rest table r w

/-- The cases `__NR_pipe` and `__NR_pipe2`, which have the same body. -/
def sysPipe (kernel : Kernel Console) : Reply × Kernel Console :=
  match pipeScan scannedSlots kernel.fdTable none none with
  | (table, some r, some w) =>
      ({ ret := 0, pipefd := some (descriptor r, descriptor w) },
        { kernel with fdTable := table })
  | (table, _, _) =>
      ({ ret := -Errno.EMFILE }, { kernel with fdTable := table })

/-- One system call on descriptors. -/
inductive Call where
  | read (fd : Int32) (count : UInt64)
  | write (fd : Int32) (buf : List UInt8)
  | openFile (path : Option CString) (flags mode : Int32)
  | openat (dirfd : Int32) (path : Option CString) (flags mode : Int32)
  | close (fd : Int32)
  | fstat (fd : Int32)
  | dup (oldfd : Int32)
  | dup2 (oldfd newfd : Int32)
  | dup3 (oldfd newfd flags : Int32)
  | pipe
  | pipe2 (flags : Int32)
  deriving Repr, DecidableEq

/-- The dispatcher, restricted to the calls on descriptors. -/
def perform
    (serial : SerialPort Console)
    (tables : EmbeddedTables)
    (kernel : Kernel Console) :
    Call → Reply × Kernel Console
  | .read fd count => sysRead serial kernel fd count
  | .write fd buf => sysWrite serial kernel fd buf
  | .openFile path flags mode => sysOpen tables kernel path flags mode
  | .openat _ path flags mode => sysOpen tables kernel path flags mode
  | .close fd => sysClose kernel fd
  | .fstat fd => sysFstat kernel fd
  | .dup oldfd => sysDup kernel oldfd
  | .dup2 oldfd newfd => sysDup2 kernel oldfd newfd
  | .dup3 oldfd newfd flags => sysDup3 kernel oldfd newfd flags
  | .pipe => sysPipe kernel
  | .pipe2 _ => sysPipe kernel

/-- At boot only the console descriptors are in use. -/
def Kernel.initial (console : Console) : Kernel Console where
  fdTable := Table.initial
  console := console

/-- Clients may make any call with any arguments. -/
def descriptorCalls
    (serial : SerialPort Console)
    (tables : EmbeddedTables) :
    Machine (Kernel Console) Call Reply where
  step := perform serial tables
  admits _ _ := True

/-! ## Slots and descriptors -/

/-- A slot and its descriptor name each other. -/
theorem toInt_descriptor (slot : Fin maxFd) :
    (descriptor slot).toInt = slot.val := by
  revert slot
  decide

/-- Different slots have different descriptors. -/
theorem descriptor_injective
    {first second : Fin maxFd}
    (same : descriptor first = descriptor second) :
    first = second := by
  have values := congrArg Int64.toInt same
  rw [toInt_descriptor, toInt_descriptor] at values
  exact Fin.ext (by omega)

/-- A descriptor is not a negative number. -/
theorem not_descriptor_lt_zero (slot : Fin maxFd) :
    ¬descriptor slot < 0 := by
  rw [Int64.lt_iff_toInt_lt, toInt_descriptor]
  change ¬(slot.val : Int) < 0
  omega

/-- The slot of a descriptor is its value. -/
theorem toInt_of_slot?
    {fd : Int32}
    {slot : Fin maxFd}
    (shape : slot? fd = some slot) :
    fd.toInt = slot.val := by
  unfold slot? at shape
  split at shape
  · next inside =>
      cases shape
      simp only
      omega
  · cases shape

/-- A descriptor in range returned as a `long` names its own slot. -/
theorem toInt64_of_slot?
    {fd : Int32}
    {slot : Fin maxFd}
    (shape : slot? fd = some slot) :
    fd.toInt64 = descriptor slot := by
  apply Int64.toInt_inj.mp
  rw [toInt_descriptor, ← toInt_of_slot? shape, Int32.toInt_toInt64]

/-- Two descriptors of one slot are the same descriptor. -/
theorem slot?_injective
    {first second : Int32}
    {slot : Fin maxFd}
    (firstShape : slot? first = some slot)
    (secondShape : slot? second = some slot) :
    first = second := by
  apply Int32.toInt_inj.mp
  rw [toInt_of_slot? firstShape, toInt_of_slot? secondShape]

/-- A descriptor that is returned for a slot names it. -/
theorem slot?_of_toInt64_eq
    {fd : Int32}
    {slot : Fin maxFd}
    (same : fd.toInt64 = descriptor slot) :
    slot? fd = some slot := by
  have value := congrArg Int64.toInt same
  rw [Int32.toInt_toInt64, toInt_descriptor] at value
  have bound : slot.val < 64 := slot.isLt
  unfold slot?
  rw [dif_pos (by omega)]
  exact congrArg some (Fin.ext (by simp [value]))

/-- A number that is no error is not equal to one. -/
theorem error_ne_toInt64
    {fd : Int32}
    {error : Int64}
    (succeeded : 0 ≤ fd)
    (negative : error < 0) :
    error ≠ fd.toInt64 := by
  rintro rfl
  rw [Int64.lt_iff_toInt_lt, Int32.toInt_toInt64] at negative
  rw [Int32.le_iff_toInt_le] at succeeded
  change fd.toInt < 0 at negative
  change 0 ≤ fd.toInt at succeeded
  omega

/-- The scan visits exactly the slots from 3 on. -/
theorem mem_scannedSlots {slot : Fin maxFd} :
    slot ∈ scannedSlots ↔ 3 ≤ slot.val := by
  revert slot
  decide

/-- The slot an allocating loop finds is a free one above the console. -/
theorem freeSlot?_some
    {table : Table}
    {slot : Fin maxFd}
    (found : freeSlot? table = some slot) :
    3 ≤ slot.val ∧ (table slot).used = false := by
  have member := List.mem_of_find?_eq_some found
  have free := List.find?_some found
  exact ⟨mem_scannedSlots.mp member, by simpa using free⟩

end RubyOnBareMetal.Descriptors
