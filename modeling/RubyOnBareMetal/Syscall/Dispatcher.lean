import RubyOnBareMetal.Syscall.Numbers
import RubyOnBareMetal.Syscall.System

namespace RubyOnBareMetal.Syscall

open Foundation Descriptors Mmap

/-!
# The dispatcher

`ruby_on_bare_metal_syscall` of `compat/ruby_on_bare_metal_syscall.c` on raw
arguments.  A pointer is read and written through RAM; what a call computes
is what the functions for its subsystem compute on the values found there.
-/

/-- The number and the arguments of a call, and when it reads the clock. -/
structure Request where
  n : Int64
  a1 : Int64
  a2 : Int64
  a3 : Int64
  a4 : Int64
  a5 : Int64
  a6 : Int64
  moment : Nat
  deriving Repr, DecidableEq

variable {Console : Type}

namespace System

variable (driver : Driver Console)
variable (environment : Environment)
variable (system : System Console)

/-- `serial_puts`. -/
def print (bytes : List UInt8) : System Console :=
  { system with console := driver.write system.console bytes }

/-- The processor after a halt or a trap. -/
def halt : System Console :=
  { system with halted := true }

/--
The path behind a pointer, as far as `streq` looks at it: to one character
more than the longest path has.
-/
def path? (pointer : UInt64) : Option CString :=
  if pointer = 0 then
    none
  else
    let files := environment.tables.generatedFiles ++
      environment.tables.muiFiles
    let longest := (files.map fun file => file.path.length).foldl max 0
    some (system.ram.cString pointer.toNat (longest + 1))

/-! ## Bytes of descriptors -/

/-- `sys_read`; on descriptor 0 it may wait for ever. -/
def sysRead (fd : Int32) (buf count : UInt64) :
    Option Int64 × System Console :=
  if fd = 0 ∧ (driver.read system.console count).isNone then
    (none, system.halt)
  else
    let (reply, kernel) :=
      Descriptors.sysRead driver.port system.kernel fd count
    (some reply.ret, (system.withKernel kernel).put buf reply.buffer)

/-- `sys_write`. -/
def sysWrite (fd : Int32) (buf count : UInt64) :
    Int64 × System Console :=
  let bytes := system.ram.slice buf.toNat count.toNat
  let (reply, kernel) :=
    Descriptors.sysWrite driver.port system.kernel fd bytes
  (reply.ret, system.withKernel kernel)

/-- The loop of `sys_writev`, with the number of entries that are left. -/
def writevLoop (fd : Int32) (iov : UInt64) :
    Nat → Nat → Int64 → System Console → Int64 × System Console
  | 0, _, total, system => (total, system)
  | left + 1, i, total, system =>
      let entry := iov.toNat + 16 * i
      let base := UInt64.ofNat (system.ram.load entry 8)
      let len := UInt64.ofNat (system.ram.load (entry + 8) 8)
      let (r, system) := sysWrite driver system fd base len
      if r < 0 then
        (r, system)
      else
        writevLoop fd iov left (i + 1) (total + r) system

/-- `sys_writev`. -/
def sysWritev (fd : Int32) (iov : UInt64) (iovcnt : Int32) :
    Int64 × System Console :=
  writevLoop driver fd iov iovcnt.toInt.toNat 0 0 system

/-- `__builtin_memset` on a `struct stat`. -/
def clearStat (buf : UInt64) : System Console :=
  { system with ram := system.ram.fill buf.toNat 144 0 }

/-- Its three fields that are set, if any are. -/
def putStat (buf : UInt64) : Option Stat → System Console
  | none => system
  | some stat =>
      ((system.putWord buf 24 4 stat.stMode.toNat).putWord
          buf 40 8 stat.stRdev.toNat).putWord
          buf 48 8 stat.stSize.toUInt64.toNat

/-- `sys_stat`, which clears the buffer before it reads the path. -/
def sysStat (path buf : UInt64) : Int64 × System Console :=
  let system := system.clearStat buf
  let reply :=
    Descriptors.sysStat environment.tables
      (system.path? environment path)
  (reply.ret, system.putStat buf reply.stat)

/-- `sys_fstat`, which clears the buffer if the descriptor is in range. -/
def sysFstat (fd : Int32) (buf : UInt64) : Int64 × System Console :=
  let (reply, _) := Descriptors.sysFstat system.kernel fd
  match reply.stat with
  | none => (reply.ret, system)
  | some stat => (reply.ret, (system.clearStat buf).putStat buf (some stat))

/-- The two pipe cases. -/
def sysPipe (fds : UInt64) : Int64 × System Console :=
  let (reply, kernel) := Descriptors.sysPipe system.kernel
  let after := system.withKernel kernel
  match reply.pipefd with
  | none => (reply.ret, after)
  | some (r, w) =>
      (reply.ret,
        (after.putWord fds 0 4 r.toInt32.toUInt32.toNat).putWord
          fds 4 4 w.toInt32.toUInt32.toNat)

/-! ## Waiting for descriptors -/

/-- The entries of an array of `struct pollfd`. -/
def pollFds (fds : UInt64) (nfds : Nat) : List PollFd :=
  (List.range nfds).map fun i => {
    fd := (UInt32.ofNat (system.ram.load (fds.toNat + 8 * i) 4)).toInt32
    events :=
      (UInt16.ofNat (system.ram.load (fds.toNat + 8 * i + 4) 2)).toInt16
    revents :=
      (UInt16.ofNat (system.ram.load (fds.toNat + 8 * i + 6) 2)).toInt16
  }

/-- Store `revents` of each entry. -/
def putRevents (ram : Memory) (fds : Nat) : List PollFd → Memory
  | [] => ram
  | entry :: rest =>
      putRevents (ram.store (fds + 6) 2 entry.revents.toUInt16.toNat)
        (fds + 8) rest

/-- `__NR_poll` and `ppoll`, which differ in what they count. -/
def sysPoll
    (count :
      (Console → Bool × Console) →
        Console → List PollFd → Int32 → Polled Console)
    (fds : UInt64)
    (nfds : Int32) :
    Int64 × System Console :=
  let entries := system.pollFds fds nfds.toInt.toNat
  let polled := count driver.dataReady system.console entries nfds
  (polled.ret, {
    system with
    ram := putRevents system.ram fds.toNat polled.fds
    console := polled.input
  })

/-- The words of a descriptor set; null is no set. -/
def wordSet? (pointer : UInt64) : Option WordSet :=
  if pointer = 0 then
    none
  else
    some fun i =>
      UInt64.ofNat (system.ram.load (pointer.toNat + 8 * i) 8)

/-- Store the first word of a set, the only one that can have changed. -/
def putFirst (pointer : UInt64) : Option WordSet → System Console
  | none => system
  | some set => system.putWord pointer 0 8 (set 0).toNat

/-- `pselect6`. -/
def sysPselect6 (nfds : Int32) (readfds writefds : UInt64) :
    Int64 × System Console :=
  let (set, ready, console) :=
    selectRead driver.dataReady system.console nfds
      (system.wordSet? readfds)
  let system := { system.putFirst readfds set with console := console }
  let (set, ready) := selectWrite ready nfds (system.wordSet? writefds)
  (ready.toInt64, system.putFirst writefds set)

/-! ## Time and random numbers -/

/-- A call that reads the clock traps if the timer does. -/
def orTrap {Value : Type}
    (computed : Except Clock.Trap Value)
    (continue_ : Value → Option Int64 × System Console) :
    Option Int64 × System Console :=
  match computed with
  | .ok value => continue_ value
  | .error _ => (none, system.halt)

/-- Store two words if the pointer is not null. -/
def putPair (address : UInt64) (first second : Int64) :
    System Console :=
  if address = 0 then
    system
  else
    (system.putWord address 0 8 first.toUInt64.toNat).putWord
      address 8 8 second.toUInt64.toNat

/-- `sys_clock_gettime`. -/
def sysClockGettime (clkId : Int32) (tp : UInt64) (moment : Nat) :
    Option Int64 × System Console :=
  system.orTrap
    (Clock.sysClockGettime environment.timer clkId (tp ≠ 0) moment)
    fun
      | (ret, none) => (some ret, system)
      | (ret, some time) =>
          (some ret, system.putPair tp time.tvSec time.tvNsec)

/-- `sys_gettimeofday`. -/
def sysGettimeofday (tv tz : UInt64) (moment : Nat) :
    Option Int64 × System Console :=
  system.orTrap
    (Clock.sysGettimeofday environment.timer (tv ≠ 0) (tz ≠ 0) moment)
    fun
      | (ret, none) => (some ret, system)
      | (ret, some time) =>
          (some ret, system.putPair tv time.tvSec time.tvUsec)

/-- `seed * 6364136223846793005UL + 1442695040888963407UL`. -/
def nextSeed (seed : UInt64) : UInt64 :=
  seed * 6364136223846793005 + 1442695040888963407

/-- The loop of `sys_getrandom`. -/
def randomBytes : Nat → UInt64 → List UInt8
  | 0, _ => []
  | left + 1, seed =>
      (nextSeed seed >>> 33).toUInt8 :: randomBytes left (nextSeed seed)

/-- `sys_getrandom`. -/
def sysGetrandom (buf buflen : UInt64) (moment : Nat) :
    Option Int64 × System Console :=
  system.orTrap (Clock.clockMillis environment.timer moment)
    fun millis =>
      (some buflen.toInt64,
        system.put buf
          (randomBytes buflen.toNat (millis.toUInt64 ^^^ buf)))

/-! ## The other cases -/

/-- `sys_ioctl`. -/
def sysIoctl (request arg : UInt64) : Int64 × System Console :=
  if request = 0x5413 then
    if arg = 0 then
      (0, system)
    else
      (0, (((system.putWord arg 0 2 25).putWord arg 2 2 80).putWord
        arg 4 2 0).putWord arg 6 2 0)
  else if request = 0x5401 then
    (0, system)
  else
    (-Errno.ENOTTY, system)

/-- `wrmsr`: the register is written from two halves. -/
def wrmsr (lo hi : UInt32) : UInt64 :=
  (hi.toUInt64 <<< 32) ||| lo.toUInt64

/-- `sys_arch_prctl`. -/
def sysArchPrctl (code : Int32) (addr : UInt64) :
    Int64 × System Console :=
  let lo := (addr &&& 0xFFFFFFFF).toUInt32
  let hi := (addr >>> 32).toUInt32
  if code = 0x1002 then
    (0, { system with fsBase := wrmsr lo hi })
  else if code = 0x1001 then
    (0, { system with gsBase := wrmsr lo hi })
  else
    (-Errno.EINVAL, system)

/-- `sys_fcntl`. -/
def sysFcntl (cmd : Int32) : Int64 :=
  if cmd = 3 then 2 else 0

/-- The case `__NR_getcwd`. -/
def sysGetcwd (buf len : UInt64) : Int64 × System Console :=
  (buf.toInt64, if 2 ≤ len then system.put buf [0x2F, 0] else system)

/-- A call on descriptors that stores nothing. -/
def replied (result : Reply × Kernel Console) :
    Option Int64 × System Console :=
  (some result.1.ret, system.withKernel result.2)

/-- A call on memory. -/
def mapped (result : Int64 × AddressSpace) :
    Option Int64 × System Console :=
  (some result.1, system.withSpace result.2)

end System

/-- A call that returns. -/
def returned (result : Int64 × System Console) :
    Option Int64 × System Console :=
  (some result.1, result.2)

section Dispatch

variable (driver : Driver Console)
variable (environment : Environment)
variable (system : System Console)

/-- The cases of the switch. -/
def dispatch (nr : Nr) (request : Request) :
    Option Int64 × System Console :=
  let a1 := request.a1
  let a2 := request.a2
  let a3 := request.a3
  let a4 := request.a4
  let a5 := request.a5
  let a6 := request.a6
  let tables := environment.tables
  match nr with
  | .read =>
      system.sysRead driver a1.toInt32 a2.toUInt64 a3.toUInt64
  | .write | .pwrite64 =>
      returned
        (system.sysWrite driver a1.toInt32 a2.toUInt64 a3.toUInt64)
  | .writev =>
      returned
        (system.sysWritev driver a1.toInt32 a2.toUInt64 a3.toInt32)
  | .openFile =>
      system.replied
        (sysOpen tables system.kernel
          (system.path? environment a1.toUInt64) a2.toInt32 a3.toInt32)
  | .openat =>
      system.replied
        (sysOpen tables system.kernel
          (system.path? environment a2.toUInt64) a3.toInt32 a4.toInt32)
  | .close =>
      system.replied (sysClose system.kernel a1.toInt32)
  | .stat | .lstat =>
      returned (system.sysStat environment a1.toUInt64 a2.toUInt64)
  | .newfstatat =>
      returned (system.sysStat environment a2.toUInt64 a3.toUInt64)
  | .fstat =>
      returned (system.sysFstat a1.toInt32 a2.toUInt64)
  | .access =>
      (some (sysAccess tables
        (system.path? environment a1.toUInt64)).ret, system)
  | .lseek =>
      system.replied
        (sysLseek system.kernel a1.toInt32 a2 a3.toInt32)
  | .pread64 =>
      system.replied
        (sysPread64 system.kernel a1.toInt32 a3.toUInt64 a4)
  | .pipe | .pipe2 =>
      returned (system.sysPipe a1.toUInt64)
  | .dup =>
      system.replied (sysDup system.kernel a1.toInt32)
  | .dup2 =>
      system.replied (sysDup2 system.kernel a1.toInt32 a2.toInt32)
  | .dup3 =>
      system.replied
        (sysDup3 system.kernel a1.toInt32 a2.toInt32 a3.toInt32)
  | .poll =>
      returned (system.sysPoll driver poll a1.toUInt64 a2.toInt32)
  | .ppoll =>
      returned (system.sysPoll driver ppoll a1.toUInt64 a2.toInt32)
  | .pselect6 =>
      returned
        (system.sysPselect6 driver a1.toInt32 a2.toUInt64 a3.toUInt64)
  | .mmap =>
      system.mapped
        (rubyOnBareMetalSyscall system.space .mmap a1 a2 a3 a4 a5 a6)
  | .mprotect =>
      system.mapped
        (rubyOnBareMetalSyscall system.space .mprotect a1 a2 a3 a4 a5 a6)
  | .munmap =>
      system.mapped
        (rubyOnBareMetalSyscall system.space .munmap a1 a2 a3 a4 a5 a6)
  | .mremap =>
      system.mapped
        (rubyOnBareMetalSyscall system.space .mremap a1 a2 a3 a4 a5 a6)
  | .madvise =>
      system.mapped
        (rubyOnBareMetalSyscall system.space .madvise a1 a2 a3 a4 a5 a6)
  | .clockGettime =>
      system.sysClockGettime environment a1.toInt32 a2.toUInt64
        request.moment
  | .gettimeofday =>
      system.sysGettimeofday environment a1.toUInt64 a2.toUInt64
        request.moment
  | .clockGetres =>
      (some 0, system.putPair a2.toUInt64 0 1000000)
  | .getrandom =>
      system.sysGetrandom environment a1.toUInt64 a2.toUInt64
        request.moment
  | .getrlimit =>
      (some 0, system.putPair a2.toUInt64 1048576 1048576)
  | .ioctl =>
      returned (system.sysIoctl a2.toUInt64 a3.toUInt64)
  | .archPrctl =>
      returned (system.sysArchPrctl a1.toInt32 a2.toUInt64)
  | .fcntl =>
      (some (System.sysFcntl a2.toInt32), system)
  | .getcwd =>
      returned (system.sysGetcwd a1.toUInt64 a2.toUInt64)
  | .exit =>
      (none, (system.print driver exitText).halt)
  | .exitGroup =>
      (none, (system.print driver exitGroupText).halt)
  | other =>
      (other.constant?, system)

/-- `ruby_on_bare_metal_log_unhandled`. -/
def logUnhandled (n : Int64) : Int64 × System Console :=
  (-Errno.ENOSYS,
    system.print driver (unhandledText ++ numberText n ++ [0x0A]))

/-- The output of the trace. -/
def trace (n : Int64) : System Console :=
  if environment.syscallTrace then
    system.print driver (traceText ++ numberText n ++ [0x0A])
  else
    system

/-- `ruby_on_bare_metal_syscall`; it returns nothing if it does not return. -/
def syscall (request : Request) : Option Int64 × System Console :=
  let system := trace driver environment system request.n
  match Nr.ofLong? request.n with
  | some nr => dispatch driver environment system nr request
  | none => returned (logUnhandled driver system request.n)

/-- One call; a halted processor makes none. -/
def step (request : Request) : Option Int64 × System Console :=
  if system.halted then
    (none, system)
  else
    syscall driver environment system request

end Dispatch

/-- Clients may make any call with any arguments. -/
def systemCalls (driver : Driver Console) (environment : Environment) :
    Machine (System Console) Request (Option Int64) where
  step := step driver environment
  admits _ _ := True

end RubyOnBareMetal.Syscall
