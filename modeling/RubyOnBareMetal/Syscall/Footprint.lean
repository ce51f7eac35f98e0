import RubyOnBareMetal.Syscall.Dispatcher

namespace RubyOnBareMetal.Syscall

open Foundation Descriptors Mmap

/-!
# What a call may write

The kernel shares RAM with its clients and has no protection.  A call stores
only where its arguments say that a result goes, and `mmap` and `mremap` in
the pages they hand out, which the mapping cursor decides.  So a byte that no
call of a run names keeps its value over the whole run.  The kernel's own
variables, such as the descriptor table and that cursor, are not part of this
RAM.
-/

/-- A range of RAM. -/
structure Range where
  start : Nat
  length : Nat
  deriving Repr, DecidableEq

/-- An address that is not in the range. -/
def Range.Excludes (range : Range) (address : Nat) : Prop :=
  address < range.start ∨ range.start + range.length ≤ address
  deriving Decidable

/-- What changed in memory lies in the ranges. -/
def ChangesOnly (before after : Memory) (ranges : List Range) : Prop :=
  ∀ address,
    (∀ range ∈ ranges, range.Excludes address) →
    after address = before address

namespace ChangesOnly

variable {before middle after : Memory}
variable {ranges : List Range}

theorem refl (memory : Memory) (ranges : List Range) :
    ChangesOnly memory memory ranges :=
  fun _ _ => rfl

theorem trans
    (first : ChangesOnly before middle ranges)
    (second : ChangesOnly middle after ranges) :
    ChangesOnly before after ranges :=
  fun address excluded =>
    (second address excluded).trans (first address excluded)

/-- A change inside one of the ranges. -/
theorem of_mem
    {start length : Nat}
    (member : ⟨start, length⟩ ∈ ranges)
    (frame :
      ∀ address,
        address < start ∨ start + length ≤ address →
        after address = before address) :
    ChangesOnly before after ranges :=
  fun address excluded => frame address (excluded _ member)

end ChangesOnly

variable {Console : Type}

/-! ## The ranges of a call -/

/-- A range behind a pointer that may be null. -/
def behind (address : UInt64) (length : Nat) : List Range :=
  if address = 0 then [] else [⟨address.toNat, length⟩]

/-- The first page above the cursor. -/
def System.nextPage (system : System Console) : Nat :=
  ((system.mmapNext + 4095) &&& ~~~4095).toNat

/-- Where a case stores, by its arguments. -/
def footprintOf (system : System Console) (nr : Nr) (request : Request) :
    List Range :=
  let a1 := request.a1.toUInt64
  let a2 := request.a2.toUInt64
  let a3 := request.a3.toUInt64
  match nr with
  | .read => [⟨a2.toNat, a3.toNat⟩]
  | .stat | .lstat | .fstat => [⟨a2.toNat, 144⟩]
  | .newfstatat => [⟨a3.toNat, 144⟩]
  | .pipe | .pipe2 => [⟨a1.toNat, 8⟩]
  | .poll | .ppoll =>
      [⟨a1.toNat, 8 * request.a2.toInt32.toInt.toNat⟩]
  | .pselect6 => behind a2 8 ++ behind a3 8
  | .mmap => [⟨system.nextPage, a2.toNat⟩]
  | .mremap => [⟨system.nextPage, a3.toNat⟩]
  | .clockGettime | .clockGetres | .getrlimit => behind a2 16
  | .gettimeofday => behind a1 16
  | .getrandom => [⟨a1.toNat, a2.toNat⟩]
  | .ioctl => if a2 = 0x5413 then behind a3 8 else []
  | .getcwd => if 2 ≤ a2 then [⟨a1.toNat, 2⟩] else []
  | _ => []

/-- Where a call stores. -/
def footprint (system : System Console) (request : Request) :
    List Range :=
  match Nr.ofLong? request.n with
  | some nr => footprintOf system nr request
  | none => []

/-! ## What the parts of a call write -/

namespace System

variable (system : System Console)
variable {ranges : List Range}

theorem put_changesOnly
    {address : UInt64}
    {bytes : List UInt8}
    {length : Nat}
    (member : ⟨address.toNat, length⟩ ∈ ranges)
    (short : bytes.length ≤ length) :
    ChangesOnly system.ram (system.put address bytes).ram ranges := by
  refine .of_mem member fun query outside => ?_
  exact Memory.writeAll_outside _ (by omega)

theorem putWord_changesOnly
    {address : UInt64}
    {offset width length : Nat}
    (value : Nat)
    (member : ⟨address.toNat, length⟩ ∈ ranges)
    (inside : offset + width ≤ length) :
    ChangesOnly system.ram (system.putWord address offset width value).ram
      ranges := by
  refine .of_mem member fun query outside => ?_
  exact Memory.store_outside _ _ (by omega)

theorem putPair_changesOnly
    (address : UInt64)
    (first second : Int64) :
    ChangesOnly system.ram (system.putPair address first second).ram
      (behind address 16) := by
  unfold putPair behind
  split
  · exact .refl _ _
  · have member :
        (⟨address.toNat, 16⟩ : Range) ∈
          [(⟨address.toNat, 16⟩ : Range)] :=
      List.mem_singleton_self _
    exact (putWord_changesOnly _ _ member (by omega)).trans
      (putWord_changesOnly _ _ member (by omega))

theorem clearStat_changesOnly (buf : UInt64) :
    ChangesOnly system.ram (system.clearStat buf).ram
      [⟨buf.toNat, 144⟩] :=
  .of_mem (List.mem_singleton_self _) fun _ outside =>
    Memory.fill_outside _ _ outside

theorem putStat_changesOnly
    (buf : UInt64)
    (stat : Option Stat) :
    ChangesOnly system.ram (system.putStat buf stat).ram
      [⟨buf.toNat, 144⟩] := by
  have member :
      (⟨buf.toNat, 144⟩ : Range) ∈ [(⟨buf.toNat, 144⟩ : Range)] :=
    List.mem_singleton_self _
  cases stat with
  | none =>
      exact .refl _ _
  | some stat =>
      exact ((putWord_changesOnly _ _ member (by omega)).trans
        (putWord_changesOnly _ _ member (by omega))).trans
          (putWord_changesOnly _ _ member (by omega))

theorem sysStat_changesOnly
    (environment : Environment)
    (path buf : UInt64) :
    ChangesOnly system.ram (system.sysStat environment path buf).2.ram
      [⟨buf.toNat, 144⟩] :=
  (system.clearStat_changesOnly buf).trans (putStat_changesOnly _ buf _)

theorem sysFstat_changesOnly (fd : Int32) (buf : UInt64) :
    ChangesOnly system.ram (system.sysFstat fd buf).2.ram
      [⟨buf.toNat, 144⟩] := by
  unfold sysFstat
  dsimp only
  split
  · exact .refl _ _
  · exact (system.clearStat_changesOnly buf).trans
      (putStat_changesOnly _ buf _)

theorem putRevents_outside
    (ram : Memory)
    {fds query : Nat}
    {entries : List PollFd}
    (outside : query < fds ∨ fds + 8 * entries.length ≤ query) :
    putRevents ram fds entries query = ram query := by
  induction entries generalizing ram fds with
  | nil =>
      rfl
  | cons entry rest inductionHypothesis =>
      rw [List.length_cons] at outside
      rw [putRevents, inductionHypothesis _ (by omega)]
      exact Memory.store_outside _ _ (by omega)

theorem putFirst_changesOnly
    (pointer : UInt64)
    (set : Option WordSet)
    (null : pointer = 0 → set = none)
    (sub : behind pointer 8 ⊆ ranges) :
    ChangesOnly system.ram (system.putFirst pointer set).ram ranges := by
  cases set with
  | none =>
      exact .refl _ _
  | some set =>
      have notNull : pointer ≠ 0 := fun isNull => by cases null isNull
      have member : (⟨pointer.toNat, 8⟩ : Range) ∈ ranges := by
        apply sub
        rw [behind, if_neg notNull]
        exact List.mem_singleton_self _
      exact putWord_changesOnly _ _ member (by omega)

end System

/-! ## The cases -/

section Cases

variable (driver : Driver Console)
variable (environment : Environment)
variable (system : System Console)

/-- A read returns at most as many bytes as it is asked for. -/
theorem length_sysRead_le
    (kernel : Kernel Console)
    (fd : Int32)
    (count : UInt64) :
    (sysRead driver.port kernel fd count).1.buffer.length ≤
      count.toNat := by
  unfold sysRead
  split
  · exact driver.length_port_read_le _ _
  · split
    · exact Nat.zero_le _
    · dsimp only
      split
      · exact Nat.zero_le _
      · split
        · split
          · exact Nat.zero_le _
          · refine (List.length_take_le _ _).trans ?_
            split
            · exact Nat.le_refl _
            · next notBelow =>
                exact UInt64.le_iff_toNat_le.mp (UInt64.not_lt.mp notBelow)
        · exact Nat.zero_le _

theorem sysPoll_changesOnly
    (count :
      (Console → Bool × Console) →
        Console → List PollFd → Int32 → Polled Console)
    (fds : UInt64)
    (nfds : Int32)
    (sameLength :
      ∀ entries : List PollFd,
        entries.length = nfds.toInt.toNat →
        (count driver.dataReady system.console entries nfds).fds.length =
          nfds.toInt.toNat) :
    ChangesOnly system.ram (system.sysPoll driver count fds nfds).2.ram
      [⟨fds.toNat, 8 * nfds.toInt.toNat⟩] := by
  refine .of_mem (List.mem_singleton_self _) fun query outside => ?_
  apply System.putRevents_outside
  rw [sameLength _ (by simp [System.pollFds])]
  exact outside

theorem length_poll
    (entries : List PollFd)
    (nfds : Int32)
    (enough : entries.length = nfds.toInt.toNat) :
    (poll driver.dataReady system.console entries nfds).fds.length =
      nfds.toInt.toNat := by
  simp [poll, pollLoop_eq, length_answered, enough]

theorem length_ppoll
    (entries : List PollFd)
    (nfds : Int32)
    (enough : entries.length = nfds.toInt.toNat) :
    (ppoll driver.dataReady system.console entries nfds).fds.length =
      nfds.toInt.toNat := by
  simp [ppoll, ppollLoop_eq, length_answered, enough]

theorem sysPselect6_changesOnly
    (nfds : Int32)
    (readfds writefds : UInt64) :
    ChangesOnly system.ram
      (system.sysPselect6 driver nfds readfds writefds).2.ram
      (behind readfds 8 ++ behind writefds 8) := by
  have readNull :
      readfds = 0 →
        (selectRead driver.dataReady system.console nfds
          (system.wordSet? readfds)).1 = none := by
    rintro rfl
    rfl
  have writeNull (system : System Console) (ready : Int32) :
      writefds = 0 →
        (selectWrite ready nfds (system.wordSet? writefds)).1 =
          none := by
    rintro rfl
    rfl
  exact (System.putFirst_changesOnly _ readfds _ readNull
      (List.subset_append_left _ _)).trans
    (System.putFirst_changesOnly _ writefds _ (writeNull _ _)
      (List.subset_append_right _ _))

/-- New pages change only where they are. -/
theorem sysMmap_changesOnly
    (space : AddressSpace)
    (addr length : UInt64)
    (prot flags fd : Int32)
    (offset : Int64) :
    ChangesOnly space.ram
      (sysMmap space addr length prot flags fd offset).2.ram
      [⟨((space.mmapNext + 4095) &&& ~~~4095).toNat, length.toNat⟩] := by
  unfold sysMmap
  dsimp only
  split
  · exact .refl _ _
  · split
    · exact .of_mem (List.mem_singleton_self _) fun query outside =>
        Memory.fill_outside _ _ outside
    · exact .refl _ _

/-- What `sys_mmap` returns is an error or the next page. -/
theorem sysMmap_ret
    (space : AddressSpace)
    (addr length : UInt64)
    (prot flags fd : Int32)
    (offset : Int64) :
    (sysMmap space addr length prot flags fd offset).1 =
        -Errno.ENOMEM ∨
      (sysMmap space addr length prot flags fd offset).1.toUInt64 =
        (space.mmapNext + 4095) &&& ~~~4095 := by
  unfold sysMmap
  dsimp only
  split
  · exact .inl rfl
  · exact .inr rfl

/-- Moved pages as well, with what is copied into them. -/
theorem sysMremap_changesOnly
    (space : AddressSpace)
    (oldAddr oldSize newSize : UInt64)
    (flags : Int32) :
    ChangesOnly space.ram
      (sysMremap space oldAddr oldSize newSize flags).2.ram
      [⟨((space.mmapNext + 4095) &&& ~~~4095).toNat,
        newSize.toNat⟩] := by
  have fresh := sysMmap_changesOnly space 0 newSize 3 0 (-1) 0
  have ret := sysMmap_ret space 0 newSize 3 0 (-1) 0
  unfold sysMremap
  generalize sysMmap space 0 newSize 3 0 (-1) 0 = outcome at fresh ret
  obtain ⟨newAddr, after⟩ := outcome
  split
  · exact fresh
  · split
    · exact .refl _ _
    · next grows =>
        have larger : oldSize.toNat ≤ newSize.toNat := by
          rw [UInt64.le_iff_toNat_le] at grows
          omega
        dsimp only at ret ⊢
        split
        · exact fresh
        · next succeeded =>
            have address :
                newAddr.toUInt64 =
                  (space.mmapNext + 4095) &&& ~~~4095 := by
              rcases ret with failed | placed
              · rw [failed] at succeeded
                exact absurd (by decide) succeeded
              · exact placed
            refine fresh.trans ?_
            rw [address]
            exact .of_mem (List.mem_singleton_self _)
              fun query outside =>
                Memory.copy_outside _ _ (by omega)

/-- A write stores nothing in RAM. -/
theorem sysWritev_ram
    (fd : Int32)
    (iov : UInt64)
    (iovcnt : Int32) :
    (system.sysWritev driver fd iov iovcnt).2.ram = system.ram := by
  have loop (left i : Nat) (total : Int64) (system : System Console) :
      (System.writevLoop driver fd iov left i total system).2.ram =
        system.ram := by
    induction left generalizing i total system with
    | zero =>
        rfl
    | succ left inductionHypothesis =>
        unfold System.writevLoop
        dsimp only
        split
        · rfl
        · exact inductionHypothesis _ _ _
  exact loop _ _ _ system

theorem orTrap_changesOnly
    {Value : Type}
    {ranges : List Range}
    (computed : Except Clock.Trap Value)
    {continue_ : Value → Option Int64 × System Console}
    (each :
      ∀ value,
        ChangesOnly system.ram (continue_ value).2.ram ranges) :
    ChangesOnly system.ram (system.orTrap computed continue_).2.ram
      ranges := by
  cases computed with
  | ok value => exact each value
  | error trap => exact .refl _ _

theorem sysClockGettime_changesOnly
    (clkId : Int32)
    (tp : UInt64)
    (moment : Nat) :
    ChangesOnly system.ram
      (system.sysClockGettime environment clkId tp moment).2.ram
      (behind tp 16) := by
  refine orTrap_changesOnly system _ fun value => ?_
  obtain ⟨ret, none | time⟩ := value
  · exact .refl _ _
  · exact System.putPair_changesOnly _ _ _ _

theorem sysGettimeofday_changesOnly
    (tv tz : UInt64)
    (moment : Nat) :
    ChangesOnly system.ram
      (system.sysGettimeofday environment tv tz moment).2.ram
      (behind tv 16) := by
  refine orTrap_changesOnly system _ fun value => ?_
  obtain ⟨ret, none | time⟩ := value
  · exact .refl _ _
  · exact System.putPair_changesOnly _ _ _ _

theorem length_randomBytes (count : Nat) (seed : UInt64) :
    (System.randomBytes count seed).length = count := by
  induction count generalizing seed with
  | zero =>
      rfl
  | succ count inductionHypothesis =>
      rw [System.randomBytes, List.length_cons, inductionHypothesis]

theorem sysGetrandom_changesOnly
    (buf buflen : UInt64)
    (moment : Nat) :
    ChangesOnly system.ram
      (system.sysGetrandom environment buf buflen moment).2.ram
      [⟨buf.toNat, buflen.toNat⟩] := by
  refine orTrap_changesOnly system _ fun millis => ?_
  exact System.put_changesOnly _ (List.mem_singleton_self _)
    (length_randomBytes _ _).le

theorem sysPipe_changesOnly (fds : UInt64) :
    ChangesOnly system.ram (system.sysPipe fds).2.ram
      [⟨fds.toNat, 8⟩] := by
  have member :
      (⟨fds.toNat, 8⟩ : Range) ∈ [(⟨fds.toNat, 8⟩ : Range)] :=
    List.mem_singleton_self _
  unfold System.sysPipe
  dsimp only
  split
  · exact .refl _ _
  · exact (System.putWord_changesOnly _ _ member (by omega)).trans
      (System.putWord_changesOnly _ _ member (by omega))

theorem sysIoctl_changesOnly (request arg : UInt64) :
    ChangesOnly system.ram (system.sysIoctl request arg).2.ram
      (if request = 0x5413 then behind arg 8 else []) := by
  unfold System.sysIoctl
  split
  · split
    · exact .refl _ _
    · next notNull =>
        have member :
            (⟨arg.toNat, 8⟩ : Range) ∈ behind arg 8 := by
          rw [behind, if_neg notNull]
          exact List.mem_singleton_self _
        exact (((System.putWord_changesOnly _ _ member (by omega)).trans
          (System.putWord_changesOnly _ _ member (by omega))).trans
            (System.putWord_changesOnly _ _ member (by omega))).trans
              (System.putWord_changesOnly _ _ member (by omega))
  · split <;> exact .refl _ _

theorem sysArchPrctl_ram (code : Int32) (addr : UInt64) :
    (system.sysArchPrctl code addr).2.ram = system.ram := by
  unfold System.sysArchPrctl
  dsimp only
  split
  · rfl
  · split <;> rfl

theorem sysGetcwd_changesOnly (buf len : UInt64) :
    ChangesOnly system.ram (system.sysGetcwd buf len).2.ram
      (if 2 ≤ len then [⟨buf.toNat, 2⟩] else []) := by
  unfold System.sysGetcwd
  dsimp only
  split
  · exact System.put_changesOnly _ (List.mem_singleton_self _)
      (Nat.le_refl 2)
  · exact .refl _ _

/-- Every case stores only in its ranges. -/
theorem dispatch_changesOnly (nr : Nr) (request : Request) :
    ChangesOnly system.ram
      (dispatch driver environment system nr request).2.ram
      (footprintOf system nr request) := by
  cases nr with
  | read =>
      simp only [dispatch, System.sysRead]
      split
      · exact .refl _ _
      · exact System.put_changesOnly _ (List.mem_singleton_self _)
          (length_sysRead_le driver _ _ _)
  | writev =>
      rw [show (dispatch driver environment system .writev request).2.ram =
        system.ram from sysWritev_ram driver system _ _ _]
      exact .refl _ _
  | stat | lstat | newfstatat =>
      exact system.sysStat_changesOnly environment _ _
  | fstat =>
      exact system.sysFstat_changesOnly _ _
  | pipe | pipe2 =>
      exact sysPipe_changesOnly system _
  | poll =>
      exact sysPoll_changesOnly driver system _ _ _
        fun entries enough => length_poll driver system entries _ enough
  | ppoll =>
      exact sysPoll_changesOnly driver system _ _ _
        fun entries enough => length_ppoll driver system entries _ enough
  | pselect6 =>
      exact sysPselect6_changesOnly driver system _ _ _
  | mmap =>
      exact sysMmap_changesOnly system.space request.a1.toUInt64
        request.a2.toUInt64 request.a3.toInt32 request.a4.toInt32
        request.a5.toInt32 request.a6
  | mremap =>
      exact sysMremap_changesOnly system.space request.a1.toUInt64
        request.a2.toUInt64 request.a3.toUInt64 request.a4.toInt32
  | clockGettime =>
      exact sysClockGettime_changesOnly environment system _ _ _
  | gettimeofday =>
      exact sysGettimeofday_changesOnly environment system _ _ _
  | clockGetres | getrlimit =>
      exact System.putPair_changesOnly _ _ _ _
  | getrandom =>
      exact sysGetrandom_changesOnly environment system _ _ _
  | ioctl =>
      exact sysIoctl_changesOnly system _ _
  | archPrctl =>
      rw [show (dispatch driver environment system .archPrctl
        request).2.ram = system.ram from sysArchPrctl_ram system _ _]
      exact .refl _ _
  | getcwd =>
      exact sysGetcwd_changesOnly system _ _
  | _ =>
      exact .refl _ _

/-- The trace changes the console only. -/
theorem trace_eq (n : Int64) :
    trace driver environment system n =
      { system with
        console := (trace driver environment system n).console } := by
  unfold trace
  split <;> rfl

/-- One call stores only in its ranges. -/
theorem step_changesOnly (request : Request) :
    ChangesOnly system.ram
      (step driver environment system request).2.ram
      (footprint system request) := by
  unfold step
  split
  · exact .refl _ _
  · unfold syscall footprint
    dsimp only
    rw [trace_eq]
    cases Nr.ofLong? request.n with
    | some nr =>
        exact dispatch_changesOnly driver environment
          { system with
            console :=
              (trace driver environment system request.n).console }
          nr request
    | none =>
        exact .refl _ _

end Cases

/-! ## Runs -/

/-- Clients whose calls name no range with a given address in it. -/
def sparingCalls
    (driver : Driver Console)
    (environment : Environment)
    (address : Nat) :
    Machine (System Console) Request (Option Int64) where
  step := step driver environment
  admits system request :=
    ∀ range ∈ footprint system request, range.Excludes address

instance decidableSparingAdmits
    (driver : Driver Console)
    (environment : Environment)
    (address : Nat)
    (system : System Console)
    (request : Request) :
    Decidable
      ((sparingCalls driver environment address).admits system request) :=
  inferInstanceAs
    (Decidable
      (∀ range ∈ footprint system request, range.Excludes address))

/--
Over every run of calls with any numbers and arguments, a byte of RAM changes
only if a call names a range with it in it.
-/
theorem unnamed_memory_kept
    (driver : Driver Console)
    (environment : Environment)
    (address : Nat)
    (start : System Console)
    (requests : List Request)
    (spared :
      (sparingCalls driver environment address).Admissible start
        requests) :
    ((systemCalls driver environment).run start requests).ram address =
      start.ram address := by
  rw [← Machine.run_promise (systemCalls driver environment)
    (sparingCalls driver environment address).admits]
  refine @Machine.run_invariant _ _ _
    (sparingCalls driver environment address)
    (fun system => system.ram address = start.ram address)
    ?_ start requests rfl spared
  intro system request kept admitted
  exact (step_changesOnly driver environment system request address
    admitted).trans kept

/-- A system with nothing embedded and no console. -/
def System.bare : System Unit where
  ram := Memory.zero
  mmapNext := mmapBase
  fdTable := Table.initial
  console := ()
  fsBase := 0
  gsBase := 0
  halted := false

/-- The environment of such a system. -/
def Environment.bare : Environment where
  tables := ⟨[], []⟩
  timer := { tscFreqKhz := 1, bootTsc := 0 }
  syscallTrace := false

/-- `getcwd` at 0x1000, `mmap`, an unknown number and `read` at 0x2000. -/
def mixedCalls : List Request := [
  ⟨79, 0x1000, 2, 0, 0, 0, 0, 1⟩,
  ⟨9, 0, 4096, 3, 0, -1, 0, 2⟩,
  ⟨999, 0x3000, 0, 0, 0, 0, 0, 3⟩,
  ⟨0, 0, 0x2000, 0x1000, 0, 0, 0, 4⟩]

theorem unnamed_memory_kept_mixed :
    ((systemCalls Driver.silent Environment.bare).run System.bare
        mixedCalls).ram 0x3000 =
      System.bare.ram 0x3000 :=
  unnamed_memory_kept Driver.silent Environment.bare 0x3000 System.bare
    mixedCalls (by decide +kernel)

end RubyOnBareMetal.Syscall
