import RubyOnBareMetal.Foundation.Interleaving
import RubyOnBareMetal.Syscall.Footprint

namespace RubyOnBareMetal.Syscall

open Foundation Descriptors Mmap

/-!
# The components of the system

The dispatcher serves three components that share nothing: the descriptor
table, the mapping cursor and the console.  Each has a machine of its own, to
which a call of the dispatcher is at most a few requests.  However the calls
are mixed, each component goes where its own requests take it.
-/

variable {Console : Type}

/-! ## The descriptor table -/

/-- The calls on descriptors without a console. -/
def tableCalls (tables : EmbeddedTables) :
    Machine Table Descriptors.Call Reply where
  step table call :=
    let (reply, kernel) :=
      perform Driver.silent.port tables ⟨table, ()⟩ call
    (reply, kernel.fdTable)
  admits _ _ := True

/-- A call that the console answers. -/
def AtConsole : Descriptors.Call → Prop
  | .read fd _ => fd = 0
  | .write _ _ => True
  | _ => False

/-- A call that the console does not answer acts on the table alone. -/
theorem perform_table
    (serial : SerialPort Console)
    (tables : EmbeddedTables)
    (kernel : Kernel Console)
    {call : Descriptors.Call}
    (onTable : ¬AtConsole call) :
    perform serial tables kernel call =
      (((tableCalls tables).step kernel.fdTable call).1,
        { kernel with
          fdTable := ((tableCalls tables).step kernel.fdTable call).2 }) := by
  obtain ⟨table, console⟩ := kernel
  cases call with
  | read fd count =>
      have aboveInput : fd ≠ 0 := onTable
      simp only [tableCalls, perform, sysRead, if_neg aboveInput]
      cases slot? fd with
      | none => rfl
      | some slot =>
          dsimp only
          cases (table slot).data with
          | none => rfl
          | some data =>
              dsimp only
              split
              · split <;> rfl
              · rfl
  | write fd buf =>
      exact absurd trivial onTable
  | openFile path flags mode | openat _ path flags mode =>
      simp only [tableCalls, perform, sysOpen]
      cases rubyOnBareMetalEmbeddedFileData tables path with
      | none => rfl
      | some file =>
          dsimp only
          cases freeSlot? table <;> rfl
  | close fd =>
      simp only [tableCalls, perform, sysClose]
      cases slot? fd <;> rfl
  | fstat fd =>
      simp only [tableCalls, perform, sysFstat]
      cases slot? fd with
      | none => rfl
      | some slot =>
          dsimp only
          split
          · rfl
          · cases (table slot).data <;> rfl
  | dup oldfd =>
      simp only [tableCalls, perform, sysDup]
      cases slot? oldfd with
      | none => rfl
      | some old =>
          dsimp only
          cases freeSlot? table <;> rfl
  | dup2 oldfd newfd | dup3 oldfd newfd _ =>
      simp only [tableCalls, perform, sysDup3, sysDup2]
      cases slot? oldfd <;> cases slot? newfd <;> rfl
  | pipe | pipe2 _ =>
      simp only [tableCalls, perform, sysPipe_eq]
      rcases freeSlots table with _ | ⟨r, _ | ⟨w, others⟩⟩ <;> rfl

/-- What a case asks of the table. -/
def tableAsks
    (environment : Environment)
    (system : System Console)
    (nr : Nr)
    (request : Request) :
    List Descriptors.Call :=
  let a1 := request.a1
  let a2 := request.a2
  let a3 := request.a3
  let a4 := request.a4
  match nr with
  | .read =>
      if a1.toInt32 = 0 then [] else [.read a1.toInt32 a3.toUInt64]
  | .openFile =>
      [.openFile (system.path? environment a1.toUInt64)
        a2.toInt32 a3.toInt32]
  | .openat =>
      [.openat a1.toInt32 (system.path? environment a2.toUInt64)
        a3.toInt32 a4.toInt32]
  | .close => [.close a1.toInt32]
  | .fstat => [.fstat a1.toInt32]
  | .dup => [.dup a1.toInt32]
  | .dup2 => [.dup2 a1.toInt32 a2.toInt32]
  | .dup3 => [.dup3 a1.toInt32 a2.toInt32 a3.toInt32]
  | .pipe => [.pipe]
  | .pipe2 => [.pipe2 a2.toInt32]
  | _ => []

/-! ## The mapping cursor -/

/-- A request for pages. -/
inductive PageCall where
  | mmap (length : UInt64)
  | mremap (oldAddr oldSize newSize : UInt64)
  deriving Repr, DecidableEq

/-- The calls that hand out pages, without RAM. -/
def pageCalls : Machine UInt64 PageCall Int64 where
  step next
    | .mmap length =>
        let (ret, space) := sysMmap ⟨.zero, next⟩ 0 length 3 0 (-1) 0
        (ret, space.mmapNext)
    | .mremap oldAddr oldSize newSize =>
        let (ret, space) :=
          sysMremap ⟨.zero, next⟩ oldAddr oldSize newSize 0
        (ret, space.mmapNext)
  admits _ _ := True

/-- What a case asks of the cursor. -/
def pageAsks (nr : Nr) (request : Request) : List PageCall :=
  match nr with
  | .mmap => [.mmap request.a2.toUInt64]
  | .mremap =>
      [.mremap request.a1.toUInt64 request.a2.toUInt64
        request.a3.toUInt64]
  | _ => []

/-- Where pages are placed depends on the cursor and the length. -/
theorem sysMmap_page
    (space : AddressSpace)
    (addr length : UInt64)
    (prot flags fd : Int32)
    (offset : Int64) :
    ((sysMmap space addr length prot flags fd offset).1,
        (sysMmap space addr length prot flags fd offset).2.mmapNext) =
      pageCalls.step space.mmapNext (.mmap length) := by
  simp only [pageCalls, sysMmap]
  split <;> rfl

theorem sysMremap_page
    (space : AddressSpace)
    (oldAddr oldSize newSize : UInt64)
    (flags : Int32) :
    ((sysMremap space oldAddr oldSize newSize flags).1,
        (sysMremap space oldAddr oldSize newSize flags).2.mmapNext) =
      pageCalls.step space.mmapNext
        (.mremap oldAddr oldSize newSize) := by
  have same := sysMmap_page space 0 newSize 3 0 (-1) 0
  simp only [pageCalls, sysMremap] at same ⊢
  generalize sysMmap space 0 newSize 3 0 (-1) 0 = placed at same ⊢
  generalize sysMmap ⟨.zero, space.mmapNext⟩ 0 newSize 3 0 (-1) 0 =
    other at same ⊢
  obtain ⟨ret, after⟩ := placed
  obtain ⟨otherRet, otherAfter⟩ := other
  obtain ⟨rfl, sameCursor⟩ := Prod.mk.inj same
  split
  · exact same
  · split
    · rfl
    · dsimp only at sameCursor ⊢
      split
      · exact same
      · rw [sameCursor]

/-! ## The console -/

/-- A use of the console. -/
inductive ConsoleCall where
  | write (bytes : List UInt8)
  | read (count : UInt64)
  | dataReady
  deriving Repr, DecidableEq

/-- What the console answers. -/
inductive ConsoleAnswer where
  | written
  | waits
  | bytes (bytes : List UInt8)
  | ready (ready : Bool)
  deriving Repr, DecidableEq

/-- The console alone. -/
def consoleCalls (driver : Driver Console) :
    Machine Console ConsoleCall ConsoleAnswer where
  step console
    | .write bytes => (.written, driver.write console bytes)
    | .read count =>
        match driver.read console count with
        | none => (.waits, console)
        | some (bytes, console) => (.bytes bytes, console)
    | .dataReady =>
        (.ready (driver.dataReady console).1,
          (driver.dataReady console).2)
  admits _ _ := True

/-- The bytes of an entry of a vector. -/
def vectorEntry (ram : Memory) (iov : UInt64) (i : Nat) : List UInt8 :=
  let entry := iov.toNat + 16 * i
  ram.slice (UInt64.ofNat (ram.load entry 8)).toNat
    (UInt64.ofNat (ram.load (entry + 8) 8)).toNat

/-- The entries that the loop of `sys_writev` reaches. -/
def vectorWrites (ram : Memory) (iov : UInt64) :
    Nat → Nat → List ConsoleCall
  | 0, _ => []
  | left + 1, i =>
      let bytes := vectorEntry ram iov i
      .write bytes ::
        if Int64.ofNat bytes.length < 0 then
          []
        else
          vectorWrites ram iov left (i + 1)

/-- An entry whose readiness depends on the console. -/
def waitsForInput (entry : PollFd) : Bool :=
  entry.fd = 0 ∧ entry.events &&& pollIn ≠ 0

/-- The questions of a loop over polled entries. -/
def pollQuestions (entries : List PollFd) : List ConsoleCall :=
  (entries.filter waitsForInput).map fun _ => .dataReady

/-- What a case asks of the console. -/
def consoleAsks
    (system : System Console)
    (nr : Nr)
    (request : Request) :
    List ConsoleCall :=
  let a1 := request.a1
  let a2 := request.a2
  let a3 := request.a3
  match nr with
  | .read => if a1.toInt32 = 0 then [.read a3.toUInt64] else []
  | .write | .pwrite64 =>
      if a1.toInt32 = 1 ∨ a1.toInt32 = 2 then
        [.write (system.ram.slice a2.toUInt64.toNat a3.toUInt64.toNat)]
      else
        []
  | .writev =>
      if a1.toInt32 = 1 ∨ a1.toInt32 = 2 then
        vectorWrites system.ram a2.toUInt64 a3.toInt32.toInt.toNat 0
      else
        []
  | .poll | .ppoll =>
      pollQuestions
        ((system.pollFds a1.toUInt64 a2.toInt32.toInt.toNat).take
          a2.toInt32.toInt.toNat)
  | .pselect6 =>
      match system.wordSet? a2.toUInt64 with
      | none => []
      | some set =>
          if 0 < a1.toInt32 ∧ set 0 &&& 1 ≠ 0 then [.dataReady] else []
  | .exit => [.write exitText]
  | .exitGroup => [.write exitGroupText]
  | _ => []

/-! ## What the functions of the dispatcher leave alone -/

/-- `sys_fstat` reads the table. -/
theorem sysFstat_kernel (kernel : Kernel Console) (fd : Int32) :
    (sysFstat kernel fd).2 = kernel := by
  unfold sysFstat
  split
  · rfl
  · split
    · rfl
    · split <;> rfl

/-- A function that leaves the three components as they are. -/
structure StoresOnly (before after : System Console) : Prop where
  fdTable : after.fdTable = before.fdTable
  mmapNext : after.mmapNext = before.mmapNext
  console : after.console = before.console

namespace StoresOnly

theorem refl (system : System Console) : StoresOnly system system :=
  ⟨rfl, rfl, rfl⟩

end StoresOnly

namespace System

variable (driver : Driver Console)
variable (system : System Console)

theorem putStat_storesOnly (buf : UInt64) (stat : Option Stat) :
    StoresOnly system (system.putStat buf stat) := by
  cases stat <;> exact ⟨rfl, rfl, rfl⟩

theorem sysStat_storesOnly
    (environment : Environment)
    (path buf : UInt64) :
    StoresOnly system (system.sysStat environment path buf).2 := by
  obtain ⟨fdTable, mmapNext, console⟩ :=
    (system.clearStat buf).putStat_storesOnly buf
      (Descriptors.sysStat environment.tables
        ((system.clearStat buf).path? environment path)).stat
  exact ⟨fdTable, mmapNext, console⟩

/-- `sys_fstat` returns what the call on descriptors does. -/
theorem sysFstat_storesOnly (fd : Int32) (buf : UInt64) :
    (system.sysFstat fd buf).1 =
        (Descriptors.sysFstat system.kernel fd).1.ret ∧
      StoresOnly system (system.sysFstat fd buf).2 := by
  unfold sysFstat
  dsimp only
  split
  · exact ⟨rfl, .refl system⟩
  · exact ⟨rfl, rfl, rfl, rfl⟩

theorem putPair_storesOnly (address : UInt64) (first second : Int64) :
    StoresOnly system (system.putPair address first second) := by
  unfold putPair
  split <;> exact ⟨rfl, rfl, rfl⟩

theorem putFirst_storesOnly (pointer : UInt64) (set : Option WordSet) :
    StoresOnly system (system.putFirst pointer set) := by
  cases set <;> exact ⟨rfl, rfl, rfl⟩

/-- On descriptor 0 a read is one of the console. -/
theorem sysRead_eq_console
    {fd : Int32}
    (input : fd = 0)
    (buf count : UInt64) :
    system.sysRead driver fd buf count =
      match driver.read system.console count with
      | none => (none, system.halt)
      | some (bytes, console) =>
          (some (Int64.ofNat bytes.length),
            { system with console := console }.put buf bytes) := by
  cases read : driver.read system.console count with
  | none =>
      rw [sysRead, if_pos ⟨input, by rw [read]; rfl⟩]
  | some result =>
      have onPort :
          driver.port.read system.console count = result := by
        change (driver.read system.console count).getD _ = result
        rw [read]
        rfl
      rw [sysRead, read, if_neg fun waits => Bool.noConfusion waits.2]
      simp only [Descriptors.sysRead, if_pos input, kernel, onPort]
      rfl

/-- On any other it is one of the table. -/
theorem sysRead_eq_table
    (environment : Environment)
    {fd : Int32}
    (notInput : fd ≠ 0)
    (buf count : UInt64) :
    let reply :=
      perform driver.port environment.tables system.kernel (.read fd count)
    system.sysRead driver fd buf count =
      (some reply.1.ret,
        (system.withKernel reply.2).put buf reply.1.buffer) := by
  dsimp only
  rw [sysRead, if_neg fun waits => notInput waits.1]
  rfl

/-- The pipe calls store the two descriptors they found. -/
theorem sysPipe_storesOnly (fds : UInt64) :
    (system.sysPipe fds).1 = (Descriptors.sysPipe system.kernel).1.ret ∧
      StoresOnly
        (system.withKernel (Descriptors.sysPipe system.kernel).2)
        (system.sysPipe fds).2 := by
  unfold sysPipe
  dsimp only
  split <;> exact ⟨rfl, rfl, rfl, rfl⟩

theorem sysIoctl_storesOnly (request arg : UInt64) :
    StoresOnly system (system.sysIoctl request arg).2 := by
  unfold sysIoctl
  split
  · split <;> exact ⟨rfl, rfl, rfl⟩
  · split <;> exact ⟨rfl, rfl, rfl⟩

theorem sysGetcwd_storesOnly (buf len : UInt64) :
    StoresOnly system (system.sysGetcwd buf len).2 := by
  unfold sysGetcwd
  dsimp only
  split <;> exact ⟨rfl, rfl, rfl⟩

/-- A trap halts the processor and changes nothing else. -/
theorem orTrap_storesOnly
    {Value : Type}
    (computed : Except Clock.Trap Value)
    {continue_ : Value → Option Int64 × System Console}
    (each : ∀ value, StoresOnly system (continue_ value).2) :
    StoresOnly system (system.orTrap computed continue_).2 := by
  cases computed with
  | error trap => exact ⟨rfl, rfl, rfl⟩
  | ok value => exact each value

theorem sysClockGettime_storesOnly
    (environment : Environment)
    (clkId : Int32)
    (tp : UInt64)
    (moment : Nat) :
    StoresOnly system
      (system.sysClockGettime environment clkId tp moment).2 := by
  refine orTrap_storesOnly system _ fun value => ?_
  obtain ⟨ret, none | time⟩ := value
  · exact .refl system
  · exact putPair_storesOnly system _ _ _

theorem sysGettimeofday_storesOnly
    (environment : Environment)
    (tv tz : UInt64)
    (moment : Nat) :
    StoresOnly system
      (system.sysGettimeofday environment tv tz moment).2 := by
  refine orTrap_storesOnly system _ fun value => ?_
  obtain ⟨ret, none | time⟩ := value
  · exact .refl system
  · exact putPair_storesOnly system _ _ _

theorem sysGetrandom_storesOnly
    (environment : Environment)
    (buf buflen : UInt64)
    (moment : Nat) :
    StoresOnly system
      (system.sysGetrandom environment buf buflen moment).2 :=
  orTrap_storesOnly system _ fun _ => ⟨rfl, rfl, rfl⟩

theorem sysArchPrctl_storesOnly (code : Int32) (addr : UInt64) :
    StoresOnly system (system.sysArchPrctl code addr).2 := by
  unfold sysArchPrctl
  dsimp only
  split
  · exact ⟨rfl, rfl, rfl⟩
  · split <;> exact ⟨rfl, rfl, rfl⟩

/-- The sets of `pselect6` are stored; the console may have been asked. -/
theorem sysPselect6_storesOnly
    (nfds : Int32)
    (readfds writefds : UInt64) :
    StoresOnly
      { system with
        console :=
          (selectRead driver.dataReady system.console nfds
            (system.wordSet? readfds)).2.2 }
      (system.sysPselect6 driver nfds readfds writefds).2 := by
  have first :=
    putFirst_storesOnly system readfds
      (selectRead driver.dataReady system.console nfds
        (system.wordSet? readfds)).1
  have second (system : System Console) (set : Option WordSet) :=
    putFirst_storesOnly system writefds set
  exact ⟨(second _ _).fdTable.trans first.fdTable,
    (second _ _).mmapNext.trans first.mmapNext, (second _ _).console⟩

/-- A write reaches the console or nothing. -/
theorem sysWrite_eq (fd : Int32) (buf count : UInt64) :
    system.sysWrite driver fd buf count =
      if fd = 1 ∨ fd = 2 then
        (Int64.ofNat count.toNat,
          system.print driver
            (system.ram.slice buf.toNat count.toNat))
      else
        (-Errno.EBADF, system) := by
  simp only [sysWrite, Descriptors.sysWrite, Memory.length_slice]
  split <;> rfl

end System

/-- A vector is written entry by entry. -/
theorem writevLoop_console
    (driver : Driver Console)
    {fd : Int32}
    (output : fd = 1 ∨ fd = 2)
    (iov : UInt64)
    (left i : Nat)
    (total : Int64)
    (system : System Console) :
    (System.writevLoop driver fd iov left i total system).2 =
      { system with
        console :=
          (consoleCalls driver).run system.console
            (vectorWrites system.ram iov left i) } := by
  induction left generalizing i total system with
  | zero =>
      rfl
  | succ left inductionHypothesis =>
      have oneWrite (bytes : List UInt8) (console : Console) :
          ((consoleCalls driver).step console (.write bytes)).2 =
            driver.write console bytes :=
        rfl
      simp only [System.writevLoop, System.sysWrite_eq, if_pos output,
        vectorWrites, vectorEntry, Memory.length_slice, Machine.run_cons,
        oneWrite]
      split
      · simp only [System.print, Machine.run_nil]
      · rw [inductionHypothesis]
        simp only [System.print]

/-- Other descriptors write nothing. -/
theorem writevLoop_nowhere
    (driver : Driver Console)
    {fd : Int32}
    (noOutput : ¬(fd = 1 ∨ fd = 2))
    (iov : UInt64)
    (left i : Nat)
    (total : Int64)
    (system : System Console) :
    (System.writevLoop driver fd iov left i total system).2 = system := by
  cases left with
  | zero =>
      rfl
  | succ left =>
      have negative : -Errno.EBADF < 0 := by decide
      simp only [System.writevLoop, System.sysWrite_eq, if_neg noOutput,
        if_pos negative]

/-- `sys_writev` writes what its loop reaches, or nothing. -/
theorem sysWritev_storesOnly
    (driver : Driver Console)
    (system : System Console)
    (fd : Int32)
    (iov : UInt64)
    (iovcnt : Int32) :
    StoresOnly
      { system with
        console :=
          (consoleCalls driver).run system.console
            (if fd = 1 ∨ fd = 2 then
              vectorWrites system.ram iov iovcnt.toInt.toNat 0
            else
              []) }
      (system.sysWritev driver fd iov iovcnt).2 := by
  by_cases output : fd = 1 ∨ fd = 2
  · rw [if_pos output, System.sysWritev,
      writevLoop_console driver output]
    exact .refl _
  · rw [if_neg output, System.sysWritev,
      writevLoop_nowhere driver output]
    exact .refl _

/-- Polled entries ask once for each that waits for input. -/
theorem answered_input
    (driver : Driver Console)
    (console : Console)
    (entries : List PollFd) :
    (answered driver.dataReady console entries).2 =
      (consoleCalls driver).run console (pollQuestions entries) := by
  induction entries generalizing console with
  | nil =>
      rfl
  | cons entry rest inductionHypothesis =>
      simp only [answered, inductionHypothesis, pollQuestions,
        readyEntry]
      by_cases waits : entry.fd = 0 ∧ entry.events &&& pollIn ≠ 0
      · have counted : waitsForInput entry = true := decide_eq_true waits
        rw [List.filter_cons_of_pos counted, if_pos waits]
        rfl
      · have passed : ¬waitsForInput entry = true :=
          fun counted => waits (of_decide_eq_true counted)
        rw [List.filter_cons_of_neg passed, if_neg waits]

/-! ## The cases -/

section Cases

variable (driver : Driver Console)
variable (environment : Environment)
variable (system : System Console)

/-- A case that is answered from the table. -/
structure AnsweredByTable
    (system : System Console)
    (call : Descriptors.Call)
    (result : Option Int64 × System Console) : Prop where
  answer :
    result.1 =
      some ((tableCalls environment.tables).step
        system.fdTable call).1.ret
  table :
    result.2.fdTable =
      ((tableCalls environment.tables).step system.fdTable call).2
  console :
    result.2.console = system.console

/-- A call on descriptors that the console does not answer. -/
theorem answeredByTable_replied
    {call : Descriptors.Call}
    (onTable : ¬AtConsole call) :
    AnsweredByTable environment system call
      (system.replied
        (perform driver.port environment.tables system.kernel call)) := by
  rw [perform_table _ _ _ onTable]
  exact ⟨rfl, rfl, rfl⟩

/-- A case asks nothing of the table, or it is answered by it. -/
theorem dispatch_table (nr : Nr) (request : Request) :
    let result := dispatch driver environment system nr request
    (tableAsks environment system nr request = [] ∧
        result.2.fdTable = system.fdTable) ∨
      ∃ call,
        tableAsks environment system nr request = [call] ∧
          AnsweredByTable environment system call result := by
  have onTable {call : Descriptors.Call} (onTable : ¬AtConsole call) :=
    answeredByTable_replied driver environment system onTable
  cases nr with
  | read =>
      by_cases input : request.a1.toInt32 = 0
      · refine .inl ⟨if_pos input, ?_⟩
        rw [dispatch, system.sysRead_eq_console driver input]
        cases driver.read system.console request.a3.toUInt64 <;> rfl
      · have answered := @onTable
          (.read request.a1.toInt32 request.a3.toUInt64) input
        refine .inr ⟨_, if_neg input, ?_⟩
        rw [dispatch, system.sysRead_eq_table driver environment input]
        exact ⟨answered.answer, answered.table, answered.console⟩
  | openFile => exact .inr ⟨_, rfl, onTable id⟩
  | openat => exact .inr ⟨_, rfl, onTable id⟩
  | close => exact .inr ⟨_, rfl, onTable id⟩
  | dup => exact .inr ⟨_, rfl, onTable id⟩
  | dup2 => exact .inr ⟨_, rfl, onTable id⟩
  | dup3 => exact .inr ⟨_, rfl, onTable id⟩
  | fstat =>
      have answered := @onTable (.fstat request.a1.toInt32) id
      have kept := sysFstat_kernel system.kernel request.a1.toInt32
      obtain ⟨ret, stored⟩ :=
        system.sysFstat_storesOnly request.a1.toInt32 request.a2.toUInt64
      refine .inr ⟨_, rfl, (congrArg some ret).trans answered.answer, ?_,
        stored.console⟩
      rw [← answered.table]
      exact stored.fdTable.trans (congrArg Kernel.fdTable kept).symm
  | pipe =>
      have answered := @onTable .pipe id
      obtain ⟨ret, stored⟩ :=
        system.sysPipe_storesOnly request.a1.toUInt64
      exact .inr ⟨_, rfl, (congrArg some ret).trans answered.answer,
        stored.fdTable.trans answered.table,
        stored.console.trans answered.console⟩
  | pipe2 =>
      have answered := @onTable (.pipe2 request.a2.toInt32) id
      obtain ⟨ret, stored⟩ :=
        system.sysPipe_storesOnly request.a1.toUInt64
      exact .inr ⟨_, rfl, (congrArg some ret).trans answered.answer,
        stored.fdTable.trans answered.table,
        stored.console.trans answered.console⟩
  | write | pwrite64 =>
      refine .inl ⟨rfl, ?_⟩
      simp only [dispatch, returned, System.sysWrite_eq]
      split <;> rfl
  | writev =>
      exact .inl ⟨rfl,
        (sysWritev_storesOnly driver system _ _ _).fdTable⟩
  | stat | lstat | newfstatat =>
      exact .inl ⟨rfl, (system.sysStat_storesOnly environment _ _).fdTable⟩
  | pselect6 =>
      exact .inl ⟨rfl,
        (system.sysPselect6_storesOnly driver _ _ _).fdTable⟩
  | clockGettime =>
      exact .inl ⟨rfl,
        (system.sysClockGettime_storesOnly environment _ _ _).fdTable⟩
  | gettimeofday =>
      exact .inl ⟨rfl,
        (system.sysGettimeofday_storesOnly environment _ _ _).fdTable⟩
  | clockGetres | getrlimit =>
      exact .inl ⟨rfl, (system.putPair_storesOnly _ _ _).fdTable⟩
  | getrandom =>
      exact .inl ⟨rfl,
        (system.sysGetrandom_storesOnly environment _ _ _).fdTable⟩
  | ioctl =>
      exact .inl ⟨rfl, (system.sysIoctl_storesOnly _ _).fdTable⟩
  | getcwd =>
      exact .inl ⟨rfl, (system.sysGetcwd_storesOnly _ _).fdTable⟩
  | archPrctl =>
      exact .inl ⟨rfl, (system.sysArchPrctl_storesOnly _ _).fdTable⟩
  | _ =>
      exact .inl ⟨rfl, rfl⟩

/-- A case asks nothing of the cursor, or it is answered by it. -/
theorem dispatch_page (nr : Nr) (request : Request) :
    let result := dispatch driver environment system nr request
    (pageAsks nr request = [] ∧
        result.2.mmapNext = system.mmapNext) ∨
      ∃ call,
        pageAsks nr request = [call] ∧
          result.1 = some (pageCalls.step system.mmapNext call).1 ∧
            result.2.mmapNext =
              (pageCalls.step system.mmapNext call).2 := by
  cases nr with
  | mmap =>
      have placed :=
        sysMmap_page system.space request.a1.toUInt64
          request.a2.toUInt64 request.a3.toInt32 request.a4.toInt32
          request.a5.toInt32 request.a6
      obtain ⟨answer, cursor⟩ := Prod.mk.inj placed
      exact .inr ⟨_, rfl, congrArg some answer, cursor⟩
  | mremap =>
      have placed :=
        sysMremap_page system.space request.a1.toUInt64
          request.a2.toUInt64 request.a3.toUInt64 request.a4.toInt32
      obtain ⟨answer, cursor⟩ := Prod.mk.inj placed
      exact .inr ⟨_, rfl, congrArg some answer, cursor⟩
  | writev =>
      exact .inl ⟨rfl,
        (sysWritev_storesOnly driver system _ _ _).mmapNext⟩
  | read =>
      refine .inl ⟨rfl, ?_⟩
      rw [dispatch, System.sysRead]
      split <;> rfl
  | fstat =>
      exact .inl ⟨rfl, (system.sysFstat_storesOnly _ _).2.mmapNext⟩
  | stat | lstat | newfstatat =>
      exact .inl ⟨rfl, (system.sysStat_storesOnly environment _ _).mmapNext⟩
  | pipe | pipe2 =>
      exact .inl ⟨rfl, (system.sysPipe_storesOnly _).2.mmapNext⟩
  | pselect6 =>
      exact .inl ⟨rfl,
        (system.sysPselect6_storesOnly driver _ _ _).mmapNext⟩
  | clockGettime =>
      exact .inl ⟨rfl,
        (system.sysClockGettime_storesOnly environment _ _ _).mmapNext⟩
  | gettimeofday =>
      exact .inl ⟨rfl,
        (system.sysGettimeofday_storesOnly environment _ _ _).mmapNext⟩
  | clockGetres | getrlimit =>
      exact .inl ⟨rfl, (system.putPair_storesOnly _ _ _).mmapNext⟩
  | getrandom =>
      exact .inl ⟨rfl,
        (system.sysGetrandom_storesOnly environment _ _ _).mmapNext⟩
  | ioctl =>
      exact .inl ⟨rfl, (system.sysIoctl_storesOnly _ _).mmapNext⟩
  | getcwd =>
      exact .inl ⟨rfl, (system.sysGetcwd_storesOnly _ _).mmapNext⟩
  | archPrctl =>
      exact .inl ⟨rfl, (system.sysArchPrctl_storesOnly _ _).mmapNext⟩
  | _ =>
      exact .inl ⟨rfl, rfl⟩

/-- Every case leaves the console where what it asks takes it. -/
theorem dispatch_console (nr : Nr) (request : Request) :
    (dispatch driver environment system nr request).2.console =
      (consoleCalls driver).run system.console
        (consoleAsks system nr request) := by
  have byTable := dispatch_table driver environment system nr request
  cases nr with
  | read =>
      by_cases input : request.a1.toInt32 = 0
      · have asked :
            consoleAsks system .read request =
              [.read request.a3.toUInt64] :=
          if_pos input
        rw [dispatch, asked, system.sysRead_eq_console driver input,
          Machine.run_cons, Machine.run_nil]
        dsimp only [consoleCalls]
        cases driver.read system.console request.a3.toUInt64 <;> rfl
      · rcases byTable with ⟨nothing, -⟩ | ⟨call, -, answered⟩
        · rw [tableAsks, if_neg input] at nothing
          cases nothing
        · rw [answered.console, consoleAsks, if_neg input]
          rfl
  | openFile | openat | close | fstat | dup | dup2 | dup3 | pipe
  | pipe2 =>
      rcases byTable with ⟨nothing, -⟩ | ⟨call, -, answered⟩
      · cases nothing
      · exact answered.console
  | write | pwrite64 =>
      simp only [dispatch, returned, System.sysWrite_eq, consoleAsks]
      split <;> rfl
  | writev =>
      exact (sysWritev_storesOnly driver system _ _ _).console
  | stat | lstat | newfstatat =>
      exact (system.sysStat_storesOnly environment _ _).console
  | poll =>
      refine Eq.trans ?_ (answered_input driver system.console _)
      rw [← pollLoop_eq]
      rfl
  | ppoll =>
      refine Eq.trans ?_ (answered_input driver system.console _)
      exact congrArg (fun looped => looped.2.2)
        (ppollLoop_eq driver.dataReady 0 system.console _)
  | pselect6 =>
      refine (system.sysPselect6_storesOnly driver _ _ _).console.trans ?_
      simp only [consoleAsks, selectRead]
      cases system.wordSet? request.a2.toUInt64 with
      | none =>
          rfl
      | some set =>
          dsimp only
          split
          · split <;> rfl
          · rfl
  | clockGettime =>
      exact (system.sysClockGettime_storesOnly environment _ _ _).console
  | gettimeofday =>
      exact (system.sysGettimeofday_storesOnly environment _ _ _).console
  | clockGetres | getrlimit =>
      exact (system.putPair_storesOnly _ _ _).console
  | getrandom =>
      exact (system.sysGetrandom_storesOnly environment _ _ _).console
  | ioctl =>
      exact (system.sysIoctl_storesOnly _ _).console
  | getcwd =>
      exact (system.sysGetcwd_storesOnly _ _).console
  | archPrctl =>
      exact (system.sysArchPrctl_storesOnly _ _).console
  | _ =>
      rfl

/-- What the trace asks of the console. -/
def traceAsks (n : Int64) : List ConsoleCall :=
  if environment.syscallTrace then
    [.write (traceText ++ numberText n ++ [0x0A])]
  else
    []

theorem trace_console (n : Int64) :
    (trace driver environment system n).console =
      (consoleCalls driver).run system.console
        (traceAsks environment n) := by
  unfold trace traceAsks
  split <;> rfl

/-- A call is refused by a halted processor, logged or dispatched. -/
theorem step_cases (request : Request) :
    (system.halted = true ∧
        step driver environment system request = (none, system)) ∨
      (system.halted = false ∧
        Nr.ofLong? request.n = none ∧
          step driver environment system request =
            returned (logUnhandled driver
              (trace driver environment system request.n) request.n)) ∨
        ∃ nr,
          system.halted = false ∧
            Nr.ofLong? request.n = some nr ∧
              step driver environment system request =
                dispatch driver environment
                  (trace driver environment system request.n)
                  nr request := by
  unfold step syscall
  cases running : system.halted with
  | true =>
      exact .inl ⟨rfl, if_pos rfl⟩
  | false =>
      cases selected : Nr.ofLong? request.n with
      | none => exact .inr (.inl ⟨rfl, rfl, rfl⟩)
      | some nr => exact .inr (.inr ⟨nr, rfl, rfl, rfl⟩)

end Cases

/-! ## The three components -/

/-- What a call asks, if the processor runs and its number is known. -/
def asksOf
    {Question : Type}
    (system : System Console)
    (request : Request)
    (ask : Nr → List Question) :
    List Question :=
  if system.halted then
    []
  else
    match Nr.ofLong? request.n with
    | none => []
    | some nr => ask nr

theorem asksOf_halted
    {Question : Type}
    {system : System Console}
    (halted : system.halted = true)
    (request : Request)
    (ask : Nr → List Question) :
    asksOf system request ask = [] :=
  if_pos halted

theorem asksOf_running
    {Question : Type}
    {system : System Console}
    (running : system.halted = false)
    (request : Request)
    (ask : Nr → List Question) :
    asksOf system request ask =
      match Nr.ofLong? request.n with
      | none => []
      | some nr => ask nr :=
  if_neg (by simp [running])

section Components

variable (driver : Driver Console)
variable (environment : Environment)

/-- One call and the table. -/
theorem step_table (system : System Console) (request : Request) :
    let result := step driver environment system request
    let asks :=
      asksOf system request
        fun nr => tableAsks environment system nr request
    (asks = [] ∧ result.2.fdTable = system.fdTable) ∨
      ∃ call,
        asks = [call] ∧
          AnsweredByTable environment
            (trace driver environment system request.n) call result := by
  dsimp only
  rcases step_cases driver environment system request with
    ⟨halted, same⟩ | ⟨running, unknown, logged⟩ |
      ⟨nr, running, selected, dispatched⟩
  · rw [same, asksOf_halted halted]
    exact .inl ⟨rfl, rfl⟩
  · rw [logged, asksOf_running running, unknown]
    refine .inl ⟨rfl, ?_⟩
    rw [trace_eq]
    rfl
  · rw [dispatched, asksOf_running running, selected]
    have cases :=
      dispatch_table driver environment
        (trace driver environment system request.n) nr request
    rw [trace_eq] at cases ⊢
    exact cases

/-- One call and the cursor. -/
theorem step_page (system : System Console) (request : Request) :
    let result := step driver environment system request
    let asks := asksOf system request fun nr => pageAsks nr request
    (asks = [] ∧ result.2.mmapNext = system.mmapNext) ∨
      ∃ call,
        asks = [call] ∧
          result.1 = some (pageCalls.step system.mmapNext call).1 ∧
            result.2.mmapNext =
              (pageCalls.step system.mmapNext call).2 := by
  dsimp only
  rcases step_cases driver environment system request with
    ⟨halted, same⟩ | ⟨running, unknown, logged⟩ |
      ⟨nr, running, selected, dispatched⟩
  · rw [same, asksOf_halted halted]
    exact .inl ⟨rfl, rfl⟩
  · rw [logged, asksOf_running running, unknown]
    refine .inl ⟨rfl, ?_⟩
    rw [trace_eq]
    rfl
  · rw [dispatched, asksOf_running running, selected]
    have cases :=
      dispatch_page driver environment
        (trace driver environment system request.n) nr request
    rw [trace_eq] at cases ⊢
    exact cases

/-- What a call asks of the console, its trace and its log included. -/
def consoleAsksOf (system : System Console) (request : Request) :
    List ConsoleCall :=
  if system.halted then
    []
  else
    traceAsks environment request.n ++
      match Nr.ofLong? request.n with
      | none =>
          [.write (unhandledText ++ numberText request.n ++ [0x0A])]
      | some nr => consoleAsks system nr request

/-- One call and the console. -/
theorem step_console (system : System Console) (request : Request) :
    (step driver environment system request).2.console =
      (consoleCalls driver).run system.console
        (consoleAsksOf environment system request) := by
  unfold consoleAsksOf
  rcases step_cases driver environment system request with
    ⟨halted, same⟩ | ⟨running, unknown, logged⟩ |
      ⟨nr, running, selected, dispatched⟩
  · rw [same, halted]
    rfl
  · rw [logged, running, unknown, if_neg Bool.false_ne_true,
      Machine.run_append, ← trace_console]
    rfl
  · rw [dispatched, running, selected, if_neg Bool.false_ne_true,
      Machine.run_append, ← trace_console, dispatch_console]
    rw [trace_eq]
    rfl

/-- The descriptor table as a component. -/
def tableComponent :
    Machine.Component (systemCalls driver environment)
      (tableCalls environment.tables) where
  view := System.fdTable
  asks system request :=
    asksOf system request
      fun nr => tableAsks environment system nr request
  acts system request := by
    rcases step_table driver environment system request with
      ⟨nothing, kept⟩ | ⟨call, asked, answered⟩
    · rw [nothing]
      exact kept
    · rw [asked]
      refine answered.table.trans ?_
      rw [trace_eq]
      rfl

/-- The mapping cursor as a component. -/
def pageComponent :
    Machine.Component (systemCalls driver environment) pageCalls where
  view := System.mmapNext
  asks system request :=
    asksOf system request fun nr => pageAsks nr request
  acts system request := by
    rcases step_page driver environment system request with
      ⟨nothing, kept⟩ | ⟨call, asked, -, moved⟩
    · rw [nothing]
      exact kept
    · rw [asked]
      exact moved

/-- The console as a component. -/
def consoleComponent :
    Machine.Component (systemCalls driver environment)
      (consoleCalls driver) where
  view := System.console
  asks := consoleAsksOf environment
  acts := step_console driver environment

/--
Over every run of calls with any numbers and arguments, the descriptor table,
the mapping cursor and the console end where the requests for each of them
alone take it, and every call that the table or the cursor serves returns what
it returns there, whatever other calls come between.
-/
theorem components_act_alone
    (start : System Console)
    (requests : List Request) :
    let after := (systemCalls driver environment).run start requests
    let table := tableComponent driver environment
    let pages := pageComponent driver environment
    let console := consoleComponent driver environment
    after.fdTable =
        (tableCalls environment.tables).run start.fdTable
          (table.asked start requests) ∧
      table.answered start requests =
        ((tableCalls environment.tables).responses start.fdTable
          (table.asked start requests)).map (fun reply => some reply.ret) ∧
      after.mmapNext =
        pageCalls.run start.mmapNext (pages.asked start requests) ∧
      pages.answered start requests =
        (pageCalls.responses start.mmapNext
          (pages.asked start requests)).map some ∧
      after.console =
        (consoleCalls driver).run start.console
          (console.asked start requests) := by
  refine ⟨(tableComponent driver environment).view_run start requests,
    (tableComponent driver environment).answered_run _ ?_ start requests,
    (pageComponent driver environment).view_run start requests,
    (pageComponent driver environment).answered_run _ ?_ start requests,
    (consoleComponent driver environment).view_run start requests⟩
  · intro system request
    rcases step_table driver environment system request with
      ⟨nothing, -⟩ | ⟨call, asked, answered⟩
    · exact .inl nothing
    · refine .inr ⟨call, asked, answered.answer.trans ?_⟩
      rw [trace_eq]
      rfl
  · intro system request
    rcases step_page driver environment system request with
      ⟨nothing, -⟩ | ⟨call, asked, answer, -⟩
    · exact .inl nothing
    · exact .inr ⟨call, asked, answer⟩

end Components

end RubyOnBareMetal.Syscall
