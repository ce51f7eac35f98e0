import RubyOnBareMetal.Descriptors.Step

namespace RubyOnBareMetal.Descriptors

open Foundation

/-!
# Failed calls and free descriptors

A failed call leaves the table as it was, with one exception: a pipe call
that finds a single free slot has reserved it before it fails.  A call on a
descriptor that is not in use is refused only where the call checks the
range, since no call but `sys_read` looks at `used`, and `sys_read` does not
report what it saw.
-/

variable {Console : Type}

/-! ## Failed calls -/

/-- A call that may change which descriptors are in use. -/
def Call.Manages : Call → Prop
  | .read .. | .write .. | .fstat _ => False
  | _ => True

/-- Marking the only free slot leaves none. -/
theorem freeSlots_markUsed_of_single
    {table : Table}
    {slot : Fin maxFd}
    (single : freeSlots table = [slot]) :
    freeSlots (markUsed table slot) = [] := by
  apply List.eq_nil_iff_forall_not_mem.mpr
  intro other free
  rw [mem_freeSlots] at free
  by_cases same : other = slot
  · subst same
    simp [markUsed] at free
  · rw [markUsed_of_ne table same] at free
    have member := mem_freeSlots.mpr free
    rw [single, List.mem_singleton] at member
    exact same member

/-- A pipe call that finds a single free slot fails and keeps it. -/
theorem perform_pipe_single
    (serial : SerialPort Console)
    (tables : EmbeddedTables)
    {kernel : Kernel Console}
    {call : Call}
    {slot : Fin maxFd}
    (pipes : call.IsPipe)
    (single : freeSlots kernel.fdTable = [slot]) :
    perform serial tables kernel call =
      ({ ret := -Errno.EMFILE },
        { kernel with fdTable := markUsed kernel.fdTable slot }) := by
  have pipe := sysPipe_eq kernel
  rw [single] at pipe
  cases call with
  | pipe | pipe2 flags =>
      exact pipe
  | _ =>
      cases pipes

/-- Any other failed call leaves everything as it was. -/
theorem perform_failed
    (serial : SerialPort Console)
    (tables : EmbeddedTables)
    {kernel : Kernel Console}
    {call : Call}
    (manages : call.Manages)
    (failed : (perform serial tables kernel call).1.ret < 0)
    (spare :
      ¬(call.IsPipe ∧ (freeSlots kernel.fdTable).length = 1)) :
    (perform serial tables kernel call).2 = kernel := by
  cases call with
  | read | write | fstat =>
      cases manages
  | openFile path flags mode | openat dirfd path flags mode =>
      simp only [perform] at failed ⊢
      rcases sysOpen_cases tables kernel path flags mode with
        ⟨error, -, fails⟩ | ⟨file, slot, -, -, succeeds⟩
      · rw [fails]
      · rw [succeeds] at failed
        exact absurd failed (not_descriptor_lt_zero slot)
  | close fd =>
      simp only [perform] at failed ⊢
      rcases sysClose_cases kernel fd with
        ⟨-, fails⟩ | ⟨slot, -, succeeds⟩
      · rw [fails]
      · rw [succeeds] at failed
        exact absurd failed Int64.lt_irrefl
  | dup oldfd =>
      simp only [perform] at failed ⊢
      rcases sysDup_cases kernel oldfd with
        ⟨-, fails⟩ | ⟨old, -, fails | ⟨new, -, succeeds⟩⟩
      · rw [fails]
      · rw [fails]
      · rw [succeeds] at failed
        exact absurd failed (not_descriptor_lt_zero new)
  | dup2 oldfd newfd | dup3 oldfd newfd flags =>
      simp only [perform, sysDup3] at failed ⊢
      rcases sysDup2_cases kernel oldfd newfd with
        ⟨-, fails⟩ | ⟨old, new, -, -, succeeds⟩
      · rw [fails]
      · rw [succeeds] at failed
        exact absurd failed (not_descriptor_lt_zero new)
  | pipe | pipe2 flags =>
      simp only [perform, sysPipe_eq] at failed ⊢
      rcases free : freeSlots kernel.fdTable with _ | ⟨r, _ | ⟨w, rest⟩⟩
      · rfl
      · exact absurd ⟨trivial, by rw [free]; rfl⟩ spare
      · rw [free] at failed
        exact absurd failed Int64.lt_irrefl

/--
A list of failed calls leaves everything as it was, or it has a pipe call
among them and started with a single free slot, which is then lost.
-/
theorem run_failed
    (serial : SerialPort Console)
    (tables : EmbeddedTables)
    {kernel : Kernel Console}
    {calls : List Call}
    (manage : ∀ call ∈ calls, call.Manages)
    (failed :
      ∀ reply ∈ (descriptorCalls serial tables).responses kernel calls,
        reply.ret < 0) :
    let reserves :=
      (∃ call ∈ calls, call.IsPipe) ∧
        (freeSlots kernel.fdTable).length = 1
    let after := (descriptorCalls serial tables).run kernel calls
    (¬reserves → after = kernel) ∧
      (reserves → freeSlots after.fdTable = []) := by
  induction calls generalizing kernel with
  | nil =>
      simp
  | cons call rest inductionHypothesis =>
      obtain ⟨manages, manageLater⟩ := List.forall_mem_cons.mp manage
      obtain ⟨failedNow, failedLater⟩ := List.forall_mem_cons.mp failed
      have later := inductionHypothesis manageLater failedLater
      change (perform serial tables kernel call).1.ret < 0 at failedNow
      simp only [List.mem_cons, exists_eq_or_imp, Machine.run_cons]
      by_cases reservesNow :
          call.IsPipe ∧ (freeSlots kernel.fdTable).length = 1
      · obtain ⟨pipes, one⟩ := reservesNow
        obtain ⟨slot, single⟩ := List.length_eq_one_iff.mp one
        have reserved :
            (descriptorCalls serial tables).step kernel call = _ :=
          perform_pipe_single serial tables pipes single
        have noneLeft := freeSlots_markUsed_of_single single
        rw [reserved] at later ⊢
        simp only [noneLeft] at later
        refine ⟨fun no => absurd ⟨.inl pipes, one⟩ no, fun _ => ?_⟩
        rw [later.1 (by simp)]
        exact noneLeft
      · have unchanged :
            ((descriptorCalls serial tables).step kernel call).2 =
              kernel :=
          perform_failed serial tables manages failedNow reservesNow
        rw [unchanged] at later ⊢
        refine ⟨fun no => later.1 ?_, fun yes => later.2 ?_⟩
        · rintro ⟨pipes, one⟩
          exact no ⟨.inr pipes, one⟩
        · obtain ⟨pipesNow | pipesLater, one⟩ := yes
          · exact absurd ⟨pipesNow, one⟩ reservesNow
          · exact ⟨pipesLater, one⟩

/--
A failed call leaves the table unchanged exactly unless it is a pipe call
that meets a single free slot, and failed calls in a row leave as many free
slots as there were exactly unless one of them is a pipe call and there was
a single one.
-/
theorem failed_calls_keep_table_iff
    (serial : SerialPort Console)
    (tables : EmbeddedTables)
    (kernel : Kernel Console) :
    (∀ call : Call,
      call.Manages →
      (((perform serial tables kernel call).1.ret < 0 →
          (perform serial tables kernel call).2.fdTable =
            kernel.fdTable) ↔
        ¬(call.IsPipe ∧ (freeSlots kernel.fdTable).length = 1))) ∧
    ∀ calls : List Call,
      (∀ call ∈ calls, call.Manages) →
      (∀ reply ∈ (descriptorCalls serial tables).responses kernel calls,
        reply.ret < 0) →
      ((freeSlots
            ((descriptorCalls serial tables).run kernel calls).fdTable
          ).length = (freeSlots kernel.fdTable).length ↔
        ¬((∃ call ∈ calls, call.IsPipe) ∧
          (freeSlots kernel.fdTable).length = 1)) := by
  refine ⟨fun call manages => ⟨?_, ?_⟩, fun calls manage failed => ?_⟩
  · rintro keeps ⟨pipes, one⟩
    obtain ⟨slot, single⟩ := List.length_eq_one_iff.mp one
    rw [perform_pipe_single serial tables pipes single] at keeps
    have noneLeft := freeSlots_markUsed_of_single single
    have same : markUsed kernel.fdTable slot = kernel.fdTable :=
      keeps (show -Errno.EMFILE < 0 by decide)
    rw [same, single] at noneLeft
    cases noneLeft
  · intro spare failed
    exact congrArg Kernel.fdTable
      (perform_failed serial tables manages failed spare)
  · obtain ⟨kept, lost⟩ := run_failed serial tables manage failed
    refine ⟨fun same reserves => ?_, fun spare => ?_⟩
    · rw [lost reserves, reserves.2] at same
      cases same
    · rw [kept spare]

/-- A pipe call on a full table, and after it another failure. -/
theorem failed_calls_keep_table_iff_full :
    let kernel :=
      (descriptorCalls .silent ⟨[], []⟩).run (.initial ())
        (List.replicate 61 (.dup 0))
    (freeSlots
        ((descriptorCalls .silent ⟨[], []⟩).run kernel
          [.pipe, .openFile none 0 0]).fdTable).length =
      (freeSlots kernel.fdTable).length :=
  ((failed_calls_keep_table_iff .silent ⟨[], []⟩ _).2
    [.pipe, .openFile none 0 0] (by simp [Call.Manages])
    (by decide +kernel)).mpr (by decide +kernel)

/-- With one free slot left a failing pipe call changes the table. -/
theorem failed_calls_lose_last_slot :
    ¬∀ (history : List Call) (call : Call),
      let machine := descriptorCalls .silent ⟨[], []⟩
      let kernel := machine.run (.initial ()) history
      call.Manages →
      (machine.step kernel call).1.ret < 0 →
      (machine.step kernel call).2.fdTable = kernel.fdTable := by
  intro atomic
  have same :=
    atomic (List.replicate 60 (.dup 0)) .pipe trivial (by decide +kernel)
  have sameLast := congrFun same 63
  revert sameLast
  decide +kernel

/-! ## Descriptors that are not in use -/

/-- A descriptor names a slot that is in use. -/
def InUse (table : Table) (fd : Int32) : Prop :=
  ∃ slot, slot? fd = some slot ∧ (table slot).used = true

instance (table : Table) (fd : Int32) : Decidable (InUse table fd) :=
  inferInstanceAs
    (Decidable (∃ slot, slot? fd = some slot ∧ (table slot).used = true))

/-- The descriptor that a call reads, describes, copies or closes. -/
def Call.operand? : Call → Option Int32
  | .read fd _ => some fd
  | .close fd => some fd
  | .fstat fd => some fd
  | .dup oldfd => some oldfd
  | .dup2 oldfd _ => some oldfd
  | .dup3 oldfd _ _ => some oldfd
  | _ => none

/-- A call answers `-EBADF`, fills no buffer and changes no entry. -/
def Refuses
    (serial : SerialPort Console)
    (tables : EmbeddedTables)
    (kernel : Kernel Console)
    (call : Call) : Prop :=
  (perform serial tables kernel call).1 = { ret := -Errno.EBADF } ∧
    (perform serial tables kernel call).2.fdTable = kernel.fdTable

/-- A call has a descriptor that fails a range check of the call. -/
def Call.OutOfRange (call : Call) (fd : Int32) : Prop :=
  ((∀ count, call ≠ .read fd count) ∧ slot? fd = none) ∨
    ∃ newfd, call.target? = some newfd ∧ slot? newfd = none

/-- `sys_read` answers a descriptor that is not in use like an empty file. -/
theorem sysRead_of_not_inUse
    (serial : SerialPort Console)
    {kernel : Kernel Console}
    {fd : Int32}
    (notStdin : fd ≠ 0)
    (notInUse : ¬InUse kernel.fdTable fd)
    (count : UInt64) :
    sysRead serial kernel fd count = ({ ret := 0 }, kernel) := by
  unfold sysRead
  rw [if_neg notStdin]
  split
  · rfl
  · next slot named =>
      have closed : ¬(kernel.fdTable slot).used = true :=
        fun used => notInUse ⟨slot, named, used⟩
      dsimp only
      split
      · rfl
      · rw [if_neg fun both => closed both.2]

/-- Success is not an error. -/
theorem zero_ne_EBADF : (0 : Int64) ≠ -Errno.EBADF := by
  decide

/-- `sys_read` never refuses. -/
theorem not_refuses_read
    (serial : SerialPort Console)
    (tables : EmbeddedTables)
    {kernel : Kernel Console}
    {fd : Int32}
    (notInUse : ¬InUse kernel.fdTable fd)
    (count : UInt64) :
    ¬Refuses serial tables kernel (.read fd count) := by
  rintro ⟨reply, -⟩
  simp only [perform] at reply
  by_cases stdin : fd = 0
  · subst stdin
    -- an empty answer is the end of the input, and no other one is empty
    have empty := congrArg Reply.buffer reply
    have ret := congrArg Reply.ret reply
    simp only [sysRead, if_true] at empty ret
    rw [empty] at ret
    exact absurd ret zero_ne_EBADF
  · rw [sysRead_of_not_inUse serial stdin notInUse] at reply
    exact absurd (congrArg Reply.ret reply) zero_ne_EBADF

/-- No descriptor is an error. -/
theorem descriptor_ne_error
    {error : Int64}
    (negative : error < 0)
    (slot : Fin maxFd) :
    descriptor slot ≠ error := by
  rintro rfl
  exact not_descriptor_lt_zero slot negative

/-- No descriptor is `-EBADF`. -/
theorem descriptor_ne_EBADF (slot : Fin maxFd) :
    descriptor slot ≠ -Errno.EBADF :=
  descriptor_ne_error (by decide) slot

/-- `sys_dup` refuses by the range of its descriptor. -/
theorem refuses_dup_iff
    (serial : SerialPort Console)
    (tables : EmbeddedTables)
    (kernel : Kernel Console)
    (oldfd : Int32) :
    Refuses serial tables kernel (.dup oldfd) ↔ slot? oldfd = none := by
  unfold Refuses
  simp only [perform]
  rcases sysDup_cases kernel oldfd with
    ⟨outside, fails⟩ | ⟨old, source, fails | ⟨new, -, succeeds⟩⟩
  · simp [fails, outside]
  · have differs : -Errno.EMFILE ≠ -Errno.EBADF := by decide
    simp [fails, source, differs]
  · simp [succeeds, source, descriptor_ne_EBADF]

/-- `sys_dup2` refuses by the range of its descriptors. -/
theorem refuses_dup2_iff
    (kernel : Kernel Console)
    (oldfd newfd : Int32) :
    (sysDup2 kernel oldfd newfd).1 = { ret := -Errno.EBADF } ∧
        (sysDup2 kernel oldfd newfd).2.fdTable = kernel.fdTable ↔
      slot? oldfd = none ∨ slot? newfd = none := by
  rcases sysDup2_cases kernel oldfd newfd with
    ⟨outside, fails⟩ | ⟨old, new, source, target, succeeds⟩
  · simp [fails, outside]
  · simp [succeeds, source, target, descriptor_ne_EBADF]

/-- A call on a descriptor not in use refuses it by range only. -/
theorem refuses_iff_outOfRange
    (serial : SerialPort Console)
    (tables : EmbeddedTables)
    {kernel : Kernel Console}
    {call : Call}
    {fd : Int32}
    (operand : call.operand? = some fd)
    (notInUse : ¬InUse kernel.fdTable fd) :
    Refuses serial tables kernel call ↔ call.OutOfRange fd := by
  cases call with
  | read other count =>
      cases operand
      have never := not_refuses_read serial tables notInUse count
      simp [never, Call.OutOfRange, Call.target?]
  | close other =>
      cases operand
      unfold Refuses
      simp only [perform]
      rcases sysClose_cases kernel fd with
        ⟨outside, fails⟩ | ⟨slot, named, succeeds⟩
      · simp [fails, outside, Call.OutOfRange]
      · simp [succeeds, named, zero_ne_EBADF, Call.OutOfRange,
          Call.target?]
  | fstat other =>
      cases operand
      unfold Refuses
      simp only [perform, sysFstat]
      cases named : slot? fd with
      | none =>
          simp [named, Call.OutOfRange]
      | some slot =>
          simp only [named, Call.OutOfRange, Call.target?, reduceCtorEq,
            and_false, false_and, exists_false, or_self, iff_false,
            not_and]
          intro reply
          have ret := congrArg Reply.ret reply
          revert ret
          repeat' split
          all_goals
            intro ret
            exact absurd ret zero_ne_EBADF
  | dup oldfd =>
      cases operand
      rw [refuses_dup_iff]
      simp [Call.OutOfRange, Call.target?]
  | dup2 oldfd newfd | dup3 oldfd newfd flags =>
      cases operand
      unfold Refuses
      simp only [perform, sysDup3]
      rw [refuses_dup2_iff]
      simp [Call.OutOfRange, Call.target?]
  | _ =>
      cases operand

/-- A duplicate is in use exactly if its source was. -/
theorem dup_used_iff
    (serial : SerialPort Console)
    (tables : EmbeddedTables)
    {kernel : Kernel Console}
    {oldfd : Int32}
    {new : Fin maxFd}
    (returned :
      (perform serial tables kernel (.dup oldfd)).1.ret =
        descriptor new) :
    ((perform serial tables kernel (.dup oldfd)).2.fdTable new).used =
        true ↔
      InUse kernel.fdTable oldfd := by
  have notBadFile := descriptor_ne_EBADF new
  have notTooMany : descriptor new ≠ -Errno.EMFILE :=
    descriptor_ne_error (by decide) new
  simp only [perform] at returned ⊢
  rcases sysDup_cases kernel oldfd with
    ⟨-, fails⟩ | ⟨old, source, fails | ⟨chosen, -, succeeds⟩⟩
  · rw [fails] at returned
    exact absurd returned.symm notBadFile
  · rw [fails] at returned
    exact absurd returned.symm notTooMany
  · rw [succeeds] at returned ⊢
    cases descriptor_injective returned
    simp [InUse, source]

/-! ## Histories that copy no free entry -/

/-- A call copies no free entry. -/
abbrev Careful (kernel : Kernel Console) (call : Call) : Prop :=
  ∀ oldfd old,
    call.source? = some oldfd →
    slot? oldfd = some old →
    (kernel.fdTable old).used = true

/-- Clients that copy no free entry. -/
def carefulCalls
    (serial : SerialPort Console)
    (tables : EmbeddedTables) :
    Machine (Kernel Console) Call Reply where
  step := perform serial tables
  admits := Careful

/-- A slot in use stays in use until it is closed. -/
theorem used_of_careful
    (serial : SerialPort Console)
    (tables : EmbeddedTables)
    {kernel : Kernel Console}
    {call : Call}
    {slot : Fin maxFd}
    (careful : Careful kernel call)
    (used : (kernel.fdTable slot).used = true)
    (notClosed : ∀ fd, call = .close fd → slot? fd ≠ some slot) :
    ((perform serial tables kernel call).2.fdTable slot).used = true := by
  have step := perform_slot serial tables kernel slot call
  generalize
    (perform serial tables kernel call).2.fdTable slot = entry at step ⊢
  cases step with
  | kept =>
      exact used
  | advanced count reply named =>
      exact used
  | closed reply named =>
      exact absurd named (notClosed _ rfl)
  | opened opens found free returned =>
      rfl
  | duplicated source free returned =>
      exact careful _ _ rfl source
  | replaced copies onto source target returned =>
      exact careful _ _ copies source
  | reserved reply pipes free =>
      rfl

/-- A careful call leaves what it hands out in use. -/
theorem used_of_issued
    (serial : SerialPort Console)
    (tables : EmbeddedTables)
    {kernel : Kernel Console}
    {call : Call}
    {slot : Fin maxFd}
    (careful : Careful kernel call)
    (issues :
      descriptor slot ∈
        call.issued (perform serial tables kernel call).1) :
    ((perform serial tables kernel call).2.fdTable slot).used = true := by
  obtain ⟨new, -, same, used | ⟨oldfd, old, rfl, source, copied⟩⟩ :=
    mem_issued serial tables kernel issues
  · rw [descriptor_injective same]
    exact used
  · rw [descriptor_injective same, copied]
    exact careful oldfd old rfl source

/-- A slot in use stays in use through careful calls that do not close it. -/
theorem run_used_of_careful
    (serial : SerialPort Console)
    (tables : EmbeddedTables)
    {kernel : Kernel Console}
    {calls : List Call}
    {slot : Fin maxFd}
    (careful : (carefulCalls serial tables).Admissible kernel calls)
    (used : (kernel.fdTable slot).used = true)
    (notClosed :
      ∀ call ∈ calls, ∀ fd, call = .close fd → slot? fd ≠ some slot) :
    (((carefulCalls serial tables).run kernel calls).fdTable
      slot).used = true := by
  induction calls generalizing kernel with
  | nil =>
      exact used
  | cons call rest inductionHypothesis =>
      obtain ⟨carefulNow, carefulLater⟩ := careful
      obtain ⟨notNow, notLater⟩ := List.forall_mem_cons.mp notClosed
      have usedNext :=
        used_of_careful serial tables carefulNow used notNow
      exact inductionHypothesis carefulLater usedNext notLater

/--
A call on a descriptor not in use refuses it exactly if a range check of the
call fails.  A duplicate is in use exactly if its source was, and as long as
no free entry is copied, a descriptor is not handed out again before it is
closed.
-/
theorem free_descriptors_refused_iff
    (serial : SerialPort Console)
    (tables : EmbeddedTables)
    (kernel : Kernel Console) :
    (∀ (call : Call) (fd : Int32),
      call.operand? = some fd →
      ¬InUse kernel.fdTable fd →
      (Refuses serial tables kernel call ↔ call.OutOfRange fd)) ∧
    (∀ (oldfd : Int32) (new : Fin maxFd),
      (perform serial tables kernel (.dup oldfd)).1.ret =
        descriptor new →
      (((perform serial tables kernel (.dup oldfd)).2.fdTable new).used =
          true ↔
        InUse kernel.fdTable oldfd)) ∧
    ∀ (first : Call) (later : List Call) (next : Call)
      (slot : Fin maxFd),
      (carefulCalls serial tables).Admissible kernel (first :: later) →
      descriptor slot ∈
        first.issued (perform serial tables kernel first).1 →
      (∀ call ∈ later, ∀ fd, call = .close fd → slot? fd ≠ some slot) →
      descriptor slot ∉
        next.issued
          (perform serial tables
            ((carefulCalls serial tables).run kernel (first :: later))
            next).1 := by
  refine ⟨?_, ?_, ?_⟩
  · intro call fd operand notInUse
    exact refuses_iff_outOfRange serial tables operand notInUse
  · intro oldfd new returned
    exact dup_used_iff serial tables returned
  · intro first later next slot careful issues notClosed
    obtain ⟨carefulNow, carefulLater⟩ := careful
    have used := used_of_issued serial tables carefulNow issues
    have stillUsed :=
      run_used_of_careful serial tables carefulLater used notClosed
    exact not_mem_issued serial tables stillUsed next

/-- A closed descriptor is out of no range, so closing it is no error. -/
theorem free_descriptors_refused_iff_closed :
    ¬Refuses .silent ⟨[], []⟩ (.initial ()) (.close 7) ∧
      Refuses .silent ⟨[], []⟩ (.initial ()) (.dup2 7 64) := by
  have refused :=
    (free_descriptors_refused_iff .silent ⟨[], []⟩ (.initial ())).1
  exact
    ⟨(not_congr (refused (.close 7) 7 rfl (by decide +kernel))).mpr
        (by
          rintro (⟨-, outside⟩ | ⟨newfd, target, -⟩)
          · exact absurd outside (by decide)
          · cases target),
      (refused (.dup2 7 64) 7 rfl (by decide +kernel)).mpr
        (.inr ⟨64, rfl, by decide⟩)⟩

/-- Two duplicates of a free descriptor succeed with the same number. -/
theorem free_descriptors_not_refused :
    (¬∀ (history : List Call) (call : Call) (fd : Int32),
      let machine := descriptorCalls .silent ⟨[], []⟩
      let kernel := machine.run (.initial ()) history
      call.operand? = some fd →
      ¬InUse kernel.fdTable fd →
      Refuses .silent ⟨[], []⟩ kernel call) ∧
    (descriptorCalls .silent ⟨[], []⟩).responses (.initial ())
        [.dup 5, .dup 5] =
      [{ ret := 3 }, { ret := 3 }] := by
  refine ⟨fun refused => ?_, by decide +kernel⟩
  have duplicated :=
    (refused [] (.dup 5) 5 rfl (by decide +kernel)).1
  revert duplicated
  decide +kernel

end RubyOnBareMetal.Descriptors
