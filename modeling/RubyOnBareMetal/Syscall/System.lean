import RubyOnBareMetal.Clock
import RubyOnBareMetal.Descriptors.PathViews
import RubyOnBareMetal.Descriptors.Positions
import RubyOnBareMetal.Descriptors.Selecting
import RubyOnBareMetal.Foundation.Bytes
import RubyOnBareMetal.Mmap.AddressSpace

namespace RubyOnBareMetal.Syscall

open Foundation Descriptors Mmap

/-!
# The system behind the dispatcher

What `ruby_on_bare_metal_syscall` can reach: the RAM its pointers lead into,
the descriptor table, the mapping cursor, the console and the two base
registers.  The variables of the kernel are kept apart from RAM, as nothing
hands out their addresses.
-/

/--
The console functions of `kernel/console.h`.  A read that waits for ever
returns nothing, any other at most as many bytes as there is room for.
-/
structure Driver (Console : Type) where
  putc : Console → UInt8 → Console
  read : Console → UInt64 → Option (List UInt8 × Console)
  dataReady : Console → Bool × Console
  atMost :
    ∀ console len,
      ∀ result ∈ read console len, result.1.length ≤ len.toNat

namespace Driver

variable {Console : Type}
variable (driver : Driver Console)

/-- `serial_write` and `serial_puts`, which call `serial_putc` in a loop. -/
def write (console : Console) (bytes : List UInt8) : Console :=
  bytes.foldl driver.putc console

/--
The console as the calls on descriptors see it.  They are not given a read
that waits for ever.
-/
def port : SerialPort Console where
  read console len := (driver.read console len).getD ([], console)
  write := driver.write

/-- The calls on descriptors see no more bytes than there is room for. -/
theorem length_port_read_le (console : Console) (len : UInt64) :
    (driver.port.read console len).1.length ≤ len.toNat := by
  have atMost := driver.atMost console len
  change ((driver.read console len).getD ([], console)).1.length ≤ len.toNat
  cases read : driver.read console len with
  | none =>
      exact Nat.zero_le _
  | some result =>
      exact atMost result read

/-- A console without input that drops its output. -/
def silent : Driver Unit where
  putc _ _ := ()
  read _ len := if len = 0 then some ([], ()) else none
  dataReady _ := (false, ())
  atMost _ len result isResult := by
    split at isResult
    · cases isResult
      exact Nat.zero_le _
    · cases isResult

end Driver

/--
What the calls read and change.  The processor halts if a call does not
return: `exit`, or a read that waits for ever.
-/
structure System (Console : Type) where
  ram : Memory
  mmapNext : UInt64
  fdTable : Table
  console : Console
  fsBase : UInt64
  gsBase : UInt64
  halted : Bool

/-- What boot leaves as it is: the files, the timer and the trace flag. -/
structure Environment where
  tables : EmbeddedTables
  timer : Clock.Timer
  syscallTrace : Bool

namespace System

variable {Console : Type}
variable (system : System Console)

/-- The part that the calls on descriptors see. -/
def kernel : Kernel Console where
  fdTable := system.fdTable
  console := system.console

/-- The part that the calls on memory see. -/
def space : AddressSpace where
  ram := system.ram
  mmapNext := system.mmapNext

/-- The system after a call on descriptors. -/
def withKernel (kernel : Kernel Console) : System Console :=
  { system with fdTable := kernel.fdTable, console := kernel.console }

/-- The system after a call on memory. -/
def withSpace (space : AddressSpace) : System Console :=
  { system with ram := space.ram, mmapNext := space.mmapNext }

/-- Store bytes where a pointer leads. -/
def put (address : UInt64) (bytes : List UInt8) : System Console :=
  { system with ram := system.ram.writeAll address.toNat bytes }

/-- Store a word of some bytes at an offset from a pointer. -/
def putWord (address : UInt64) (offset width value : Nat) :
    System Console :=
  { system with
    ram := system.ram.store (address.toNat + offset) width value }

end System

/-! ## Texts -/

/-- `"syscall: unhandled #"`. -/
def unhandledText : List UInt8 :=
  ['s', 'y', 's', 'c', 'a', 'l', 'l', ':', ' ', 'u', 'n', 'h', 'a', 'n',
    'd', 'l', 'e', 'd', ' ', '#'].map asciiByte

/-- `"sys:"`. -/
def traceText : List UInt8 :=
  ['s', 'y', 's', ':'].map asciiByte

/-- `"exit called\n"`. -/
def exitText : List UInt8 :=
  ['e', 'x', 'i', 't', ' ', 'c', 'a', 'l', 'l', 'e', 'd', '\n'].map
    asciiByte

/-- `"exit_group called\n"`. -/
def exitGroupText : List UInt8 :=
  ['e', 'x', 'i', 't', '_', 'g', 'r', 'o', 'u', 'p', ' ', 'c', 'a', 'l',
    'l', 'e', 'd', '\n'].map asciiByte

/-- `while (num > 0 && i < 19)`, with the room that is left in `buf`. -/
def digitLoop : Nat → Int64 → List UInt8
  | 0, _ => []
  | room + 1, num =>
      if 0 < num then
        (0x30 + (num % 10)).toUInt64.toUInt8 :: digitLoop room (num / 10)
      else
        []

/-- The loops that print a number: its sign, then `buf` from its end. -/
def numberText (n : Int64) : List UInt8 :=
  let num := if n < 0 then -n else n
  let digits := if num = 0 then [0x30] else digitLoop 19 num
  (if n < 0 then [0x2D] else []) ++ digits.reverse

end RubyOnBareMetal.Syscall
