import RubyOnBareMetal.Descriptors.Failures
import RubyOnBareMetal.Descriptors.Reading

namespace RubyOnBareMetal.Descriptors

open Foundation

/-!
# Duplicates as names of one file

A duplicate is a copy of the entry with an offset of its own, and the calls
that use a descriptor decide by its number whether it is the console.  So a
duplicate and its source behave as one file only if they are one descriptor,
two outputs of the console, or have nothing left to read.
-/

variable {Console : Type}

/-- A use of a descriptor that is open. -/
inductive Access where
  | read (count : UInt64)
  | write (buf : List UInt8)
  | fstat
  deriving Repr, DecidableEq

/-- The call that makes the access through a descriptor. -/
def Access.on (access : Access) (fd : Int32) : Call :=
  match access with
  | .read count => .read fd count
  | .write buf => .write fd buf
  | .fstat => .fstat fd

/-- An access of a script through the new or the old descriptor. -/
def Access.through
    (old new : Int32)
    (step : Bool × Access) : Call :=
  step.2.on (if step.1 then new else old)

/--
Every script of accesses through two descriptors has the replies and the
effect on the console that it has when all go through the old one.
-/
def BehaveAsOne
    (serial : SerialPort Console)
    (tables : EmbeddedTables)
    (kernel : Kernel Console)
    (old new : Int32) : Prop :=
  ∀ script : List (Bool × Access),
    let machine := descriptorCalls serial tables
    let both := script.map (Access.through old new)
    let one := script.map (Access.through old old)
    machine.responses kernel both = machine.responses kernel one ∧
      (machine.run kernel both).console = (machine.run kernel one).console

/-- A read of the entry returns nothing. -/
def FdEntry.Exhausted (entry : FdEntry) : Prop :=
  entry.data = none ∨ entry.offset = entry.size

instance (entry : FdEntry) : Decidable entry.Exhausted :=
  inferInstanceAs (Decidable (_ ∨ _))

/-! ## What a duplication does -/

/--
After a successful duplication both slots hold the entry of the source, and
the new descriptor is the target or a slot above the console that was free.
-/
theorem duplicated_entries
    (serial : SerialPort Console)
    (tables : EmbeddedTables)
    {kernel : Kernel Console}
    {call : Call}
    {old new : Int32}
    (copies : call.source? = some old)
    (returned :
      (perform serial tables kernel call).1.ret = new.toInt64)
    (succeeded : 0 ≤ new) :
    ∃ oldSlot newSlot,
      slot? old = some oldSlot ∧
        slot? new = some newSlot ∧
        (perform serial tables kernel call).2 =
          kernel.set newSlot (kernel.fdTable oldSlot) ∧
        (call.target? = some new ∨
          call.target? = none ∧ newSlot ∈ freeSlots kernel.fdTable) := by
  have notBadFile : -Errno.EBADF ≠ new.toInt64 :=
    error_ne_toInt64 succeeded (by decide)
  have notTooMany : -Errno.EMFILE ≠ new.toInt64 :=
    error_ne_toInt64 succeeded (by decide)
  cases call with
  | dup oldfd =>
      cases copies
      simp only [perform] at returned ⊢
      rcases sysDup_cases kernel old with
        ⟨-, fails⟩ | ⟨oldSlot, source, fails | ⟨slot, free, succeeds⟩⟩
      · rw [fails] at returned
        exact absurd returned notBadFile
      · rw [fails] at returned
        exact absurd returned notTooMany
      · rw [succeeds] at returned ⊢
        exact ⟨oldSlot, slot, source, slot?_of_toInt64_eq returned.symm,
          rfl, .inr ⟨rfl, free⟩⟩
  | dup2 oldfd newfd | dup3 oldfd newfd flags =>
      cases copies
      simp only [perform, sysDup3] at returned ⊢
      rcases sysDup2_cases kernel old newfd with
        ⟨-, fails⟩ | ⟨oldSlot, slot, source, target, succeeds⟩
      · rw [fails] at returned
        exact absurd returned notBadFile
      · rw [succeeds] at returned ⊢
        have named := slot?_of_toInt64_eq returned.symm
        have same := slot?_injective named target
        exact ⟨oldSlot, slot, source, named, rfl,
          .inl (congrArg some same.symm)⟩
  | _ =>
      cases copies

/-! ## When accesses cannot tell two descriptors apart -/

/-- Standard output and standard error. -/
abbrev IsOutput (fd : Int32) : Prop :=
  fd = 1 ∨ fd = 2

/-- A descriptor is above the console if its slot is. -/
theorem three_le_iff_of_slot?
    {fd : Int32}
    {slot : Fin maxFd}
    (named : slot? fd = some slot) :
    3 ≤ fd ↔ 3 ≤ slot.val := by
  rw [Int32.le_iff_toInt_le, toInt_of_slot? named]
  change (3 : Int) ≤ slot.val ↔ 3 ≤ slot.val
  omega

/-- A descriptor above the console is none of its three. -/
theorem not_console_of_three_le {fd : Int32} (above : 3 ≤ fd) :
    fd ≠ 0 ∧ ¬IsOutput fd ∧ ¬fd ≤ 2 := by
  rw [Int32.le_iff_toInt_le] at above ⊢
  change (3 : Int) ≤ fd.toInt at above
  refine ⟨?_, ?_, ?_⟩
  · rintro rfl
    exact absurd above (by decide)
  · rintro (rfl | rfl)
    · exact absurd above (by decide)
    · exact absurd above (by decide)
  · change ¬fd.toInt ≤ (2 : Int)
    omega

/-- What an access through an output of the console does. -/
def outputAccess
    (serial : SerialPort Console)
    (kernel : Kernel Console) :
    Access → Reply × Kernel Console
  | .read _ => ({ ret := 0 }, kernel)
  | .write buf =>
      ({ ret := Int64.ofNat buf.length },
        { kernel with console := serial.write kernel.console buf })
  | .fstat =>
      ({ ret := 0, stat := some ⟨0o020666, 0x0501, 0⟩ }, kernel)

/-- Both outputs of the console take every access alike. -/
theorem perform_output
    (serial : SerialPort Console)
    (tables : EmbeddedTables)
    (kernel : Kernel Console)
    {fd : Int32}
    (output : IsOutput fd)
    (access : Access) :
    perform serial tables kernel (access.on fd) =
      outputAccess serial kernel access := by
  have range : fd ≠ 0 ∧ fd ≤ 2 ∧ ¬3 ≤ fd ∧ (slot? fd).isSome := by
    rcases output with rfl | rfl <;> decide
  obtain ⟨notStdin, atMostTwo, notAbove, inRange⟩ := range
  obtain ⟨slot, named⟩ := Option.isSome_iff_exists.mp inRange
  cases access with
  | read count =>
      simp only [Access.on, perform, sysRead, outputAccess,
        if_neg notStdin, named, notAbove, false_and, if_false]
      split <;> rfl
  | write buf =>
      simp only [Access.on, perform, sysWrite, outputAccess,
        if_pos output]
  | fstat =>
      simp only [Access.on, perform, sysFstat, outputAccess, named,
        if_pos atMostTwo]

/-- The reply to an access through an entry with nothing left to read. -/
def exhaustedReply (entry : FdEntry) : Access → Reply
  | .read _ => { ret := 0 }
  | .write _ => { ret := -Errno.EBADF }
  | .fstat =>
      match entry.data with
      | some _ =>
          { ret := 0, stat := some ⟨0o100444, 0, entry.size.toInt64⟩ }
      | none => { ret := 0, stat := some ⟨0o100444, 0, 0⟩ }

/-- Accesses through such an entry depend on it only and change nothing. -/
theorem perform_exhausted
    (serial : SerialPort Console)
    (tables : EmbeddedTables)
    {kernel : Kernel Console}
    {fd : Int32}
    {slot : Fin maxFd}
    (named : slot? fd = some slot)
    (above : 3 ≤ fd)
    (exhausted : (kernel.fdTable slot).Exhausted)
    (access : Access) :
    perform serial tables kernel (access.on fd) =
      (exhaustedReply (kernel.fdTable slot) access, kernel) := by
  obtain ⟨notStdin, notOutput, notTwo⟩ := not_console_of_three_le above
  cases access with
  | read count =>
      simp only [Access.on, perform, sysRead, exhaustedReply,
        if_neg notStdin, named]
      cases exhausted with
      | inl noData =>
          simp only [noData]
      | inr atEnd =>
          simp only [atEnd, UInt64.sub_self, if_true, ite_self]
          split <;> rfl
  | write buf =>
      simp only [Access.on, perform, sysWrite, exhaustedReply,
        if_neg notOutput]
  | fstat =>
      simp only [Access.on, perform, sysFstat, exhaustedReply, named,
        if_neg notTwo]
      cases (kernel.fdTable slot).data <;> rfl

/-! ## When accesses do tell them apart -/

/-- `fstat` tells the console from the other descriptors. -/
theorem fstat_tells_console
    {kernel : Kernel Console}
    {old new : Int32}
    {oldSlot newSlot : Fin maxFd}
    (oldNamed : slot? old = some oldSlot)
    (newNamed : slot? new = some newSlot)
    (same : (sysFstat kernel new).1 = (sysFstat kernel old).1) :
    3 ≤ new ↔ 3 ≤ old := by
  have mode
      {fd : Int32}
      {slot : Fin maxFd}
      (named : slot? fd = some slot) :
      (sysFstat kernel fd).1.stat.map Stat.stMode =
        if 3 ≤ fd then some 0o100444 else some 0o020666 := by
    unfold sysFstat
    rw [named]
    by_cases above : 3 ≤ fd
    · obtain ⟨-, -, notTwo⟩ := not_console_of_three_le above
      rw [if_pos above]
      dsimp only
      rw [if_neg notTwo]
      split <;> rfl
    · have atMostTwo : fd ≤ 2 := by
        rw [Int32.le_iff_toInt_le] at above ⊢
        change ¬(3 : Int) ≤ fd.toInt at above
        change fd.toInt ≤ (2 : Int)
        omega
      rw [if_neg above]
      dsimp only
      rw [if_pos atMostTwo]
      rfl
  have modes := congrArg (fun reply => reply.stat.map Stat.stMode) same
  simp only [mode oldNamed, mode newNamed] at modes
  by_cases aboveNew : 3 ≤ new
  · by_cases aboveOld : 3 ≤ old
    · simp [aboveNew, aboveOld]
    · simp [aboveNew, aboveOld] at modes
  · by_cases aboveOld : 3 ≤ old
    · simp [aboveNew, aboveOld] at modes
    · simp [aboveNew, aboveOld]

/-- An empty write tells the outputs from standard input. -/
theorem write_tells_output
    (serial : SerialPort Console)
    {kernel : Kernel Console}
    {old new : Int32}
    (same :
      (sysWrite serial kernel new []).1 =
        (sysWrite serial kernel old []).1) :
    IsOutput new ↔ IsOutput old := by
  have differs := zero_ne_EBADF
  have ret := congrArg Reply.ret same
  unfold sysWrite at ret
  split at ret
  · next newOutput =>
      split at ret
      · next oldOutput =>
          exact iff_of_true newOutput oldOutput
      · exact absurd ret differs
  · next newOther =>
      split at ret
      · exact absurd ret.symm differs
      · next oldOther =>
          exact iff_of_false newOther oldOther

/-- The descriptors that are not above the console. -/
theorem console_of_not_three_le
    {fd : Int32}
    {slot : Fin maxFd}
    (named : slot? fd = some slot)
    (below : ¬3 ≤ fd) :
    fd = 0 ∨ IsOutput fd := by
  have value := toInt_of_slot? named
  rw [Int32.le_iff_toInt_le] at below
  change ¬(3 : Int) ≤ fd.toInt at below
  have inRange : fd.toInt = 0 ∨ fd.toInt = 1 ∨ fd.toInt = 2 := by
    omega
  rcases inRange with zero | one | two
  · exact .inl (Int32.toInt_inj.mp zero)
  · exact .inr (.inl (Int32.toInt_inj.mp one))
  · exact .inr (.inr (Int32.toInt_inj.mp two))

/-- Reading all that remains brings an entry to its end. -/
theorem sysRead_rest
    (serial : SerialPort Console)
    {kernel : Kernel Console}
    {fd : Int32}
    {slot : Fin maxFd}
    {data : List UInt8}
    (named : slot? fd = some slot)
    (above : 3 ≤ slot.val)
    (used : (kernel.fdTable slot).used = true)
    (present : (kernel.fdTable slot).data = some data) :
    (sysRead serial kernel fd
        ((kernel.fdTable slot).size - (kernel.fdTable slot).offset)).2 =
      kernel.set slot
        { kernel.fdTable slot with
          offset := (kernel.fdTable slot).size } := by
  have read :=
    sysRead_of_data serial named above used present
      ((kernel.fdTable slot).size - (kernel.fdTable slot).offset)
  have allRead :
      (kernel.fdTable slot).toRead
          ((kernel.fdTable slot).size - (kernel.fdTable slot).offset) =
        (kernel.fdTable slot).size - (kernel.fdTable slot).offset :=
    ite_self _
  rw [allRead, UInt64.add_comm, UInt64.sub_add_cancel] at read
  exact congrArg Prod.snd read

/-- Before its end an entry gives the byte it is asked for. -/
theorem FdEntry.toRead_one_ne_zero
    {entry : FdEntry}
    (notAtEnd : entry.offset ≠ entry.size) :
    entry.toRead 1 ≠ 0 := by
  unfold FdEntry.toRead
  split
  · decide
  · intro nothing
    rw [UInt64.sub_eq_iff_eq_add, UInt64.zero_add] at nothing
    exact notAtEnd nothing.symm

/-- Reading to the end through one copy leaves the other where it was. -/
theorem read_tells_copies
    (serial : SerialPort Console)
    (tables : EmbeddedTables)
    {kernel : Kernel Console}
    {old new : Int32}
    {oldSlot newSlot : Fin maxFd}
    (oldNamed : slot? old = some oldSlot)
    (newNamed : slot? new = some newSlot)
    (different : newSlot ≠ oldSlot)
    (oldAbove : 3 ≤ oldSlot.val)
    (newAbove : 3 ≤ newSlot.val)
    (copied : kernel.fdTable newSlot = kernel.fdTable oldSlot)
    (used : (kernel.fdTable oldSlot).used = true)
    (unread : ¬(kernel.fdTable oldSlot).Exhausted) :
    ¬BehaveAsOne serial tables kernel old new := by
  obtain ⟨hasData, notAtEnd⟩ := not_or.mp unread
  obtain ⟨data, present⟩ := Option.ne_none_iff_exists'.mp hasData
  let entry := kernel.fdTable oldSlot
  let middle := (sysRead serial kernel old (entry.size - entry.offset)).2
  have shape :
      middle = kernel.set oldSlot { entry with offset := entry.size } :=
    sysRead_rest serial oldNamed oldAbove used present
  have atEnd :
      middle.fdTable oldSlot = { entry with offset := entry.size } := by
    simp [shape]
  have untouched : middle.fdTable newSlot = entry := by
    simp [shape, Function.update_of_ne different, copied, entry]
  intro together
  have replies :=
    (together [(false, .read (entry.size - entry.offset)),
      (true, .read 1)]).1
  have second :
      (sysRead serial middle new 1).1 = (sysRead serial middle old 1).1 :=
    (List.cons.inj (List.cons.inj replies).2).1
  have throughNew :
      (sysRead serial middle new 1).1.ret = (entry.toRead 1).toInt64 := by
    have read :=
      sysRead_of_data serial newNamed newAbove
        (by rw [untouched]; exact used)
        (by rw [untouched]; exact present) 1
    rw [read, untouched]
  have throughOld : (sysRead serial middle old 1).1.ret = 0 := by
    have read :=
      sysRead_of_data serial oldNamed oldAbove
        (by rw [atEnd]; exact used)
        (by rw [atEnd]; exact present) 1
    rw [read, atEnd, FdEntry.toRead_of_end (UInt64.sub_self _)]
    rfl
  rw [second, throughOld] at throughNew
  have sameValue := congrArg Int64.toUInt64 throughNew.symm
  rw [UInt64.toUInt64_toInt64] at sameValue
  exact FdEntry.toRead_one_ne_zero notAtEnd sameValue

/-- Accesses with equal steps in every state of an invariant are alike. -/
theorem behaveAsOne_of_steps_eq
    (serial : SerialPort Console)
    (tables : EmbeddedTables)
    {kernel : Kernel Console}
    {old new : Int32}
    (invariant : Kernel Console → Prop)
    (initially : invariant kernel)
    (preserved :
      ∀ state (access : Access),
        invariant state →
        invariant (perform serial tables state (access.on old)).2)
    (same :
      ∀ state (access : Access),
        invariant state →
        perform serial tables state (access.on new) =
          perform serial tables state (access.on old)) :
    BehaveAsOne serial tables kernel old new := by
  intro script
  obtain ⟨sameResponses, sameRun⟩ :=
    (descriptorCalls serial tables).run_congr invariant
      (Access.through old new) (Access.through old old)
      (fun state step holds => by
        rcases step with ⟨toNew, access⟩
        cases toNew with
        | true => exact preserved state access holds
        | false => exact preserved state access holds)
      (fun state step holds => by
        rcases step with ⟨toNew, access⟩
        cases toNew with
        | true => exact same state access holds
        | false => rfl)
      initially script
  exact ⟨sameResponses, congrArg Kernel.console sameRun⟩

/-- The exact condition under which two copies of an entry are one file. -/
theorem behaveAsOne_iff
    (serial : SerialPort Console)
    (tables : EmbeddedTables)
    {kernel : Kernel Console}
    {old new : Int32}
    {oldSlot newSlot : Fin maxFd}
    (oldNamed : slot? old = some oldSlot)
    (newNamed : slot? new = some newSlot)
    (copied : kernel.fdTable newSlot = kernel.fdTable oldSlot)
    (used : (kernel.fdTable oldSlot).used = true) :
    BehaveAsOne serial tables kernel old new ↔
      new = old ∨
        (IsOutput new ∧ IsOutput old) ∨
        (3 ≤ new ∧ 3 ≤ old ∧ (kernel.fdTable oldSlot).Exhausted) := by
  constructor
  · intro together
    have sameFstat :
        (sysFstat kernel new).1 = (sysFstat kernel old).1 :=
      (List.cons.inj (together [(true, .fstat)]).1).1
    have sameSide := fstat_tells_console oldNamed newNamed sameFstat
    by_cases same : new = old
    · exact .inl same
    · by_cases above : 3 ≤ old
      · have different : newSlot ≠ oldSlot := by
          rintro rfl
          exact same (slot?_injective newNamed oldNamed)
        refine .inr (.inr ⟨sameSide.mpr above, above, ?_⟩)
        by_contra unread
        exact read_tells_copies serial tables oldNamed newNamed different
          ((three_le_iff_of_slot? oldNamed).mp above)
          ((three_le_iff_of_slot? newNamed).mp (sameSide.mpr above))
          copied used unread together
      · have sameWrite :
            (sysWrite serial kernel new []).1 =
              (sysWrite serial kernel old []).1 :=
          (List.cons.inj (together [(true, .write [])]).1).1
        have sameOutput := write_tells_output serial sameWrite
        have newBelow : ¬3 ≤ new := fun newAbove =>
          above (sameSide.mp newAbove)
        rcases console_of_not_three_le oldNamed above with
          oldStdin | oldOutput
        · rcases console_of_not_three_le newNamed newBelow with
            newStdin | newOutput
          · exact absurd (newStdin.trans oldStdin.symm) same
          · exact .inr (.inl ⟨newOutput, sameOutput.mp newOutput⟩)
        · exact .inr (.inl ⟨sameOutput.mpr oldOutput, oldOutput⟩)
  · rintro (rfl | ⟨newOutput, oldOutput⟩ | ⟨newAbove, oldAbove, exhausted⟩)
    · exact fun script => ⟨rfl, rfl⟩
    · -- in every state the two outputs have the same steps
      refine behaveAsOne_of_steps_eq serial tables (fun _ => True)
        trivial (fun _ _ _ => trivial) fun state access _ => ?_
      rw [perform_output serial tables state newOutput,
        perform_output serial tables state oldOutput]
    · -- no access changes anything, so the run stays where it starts
      refine behaveAsOne_of_steps_eq serial tables (· = kernel) rfl ?_ ?_
      · rintro state access rfl
        rw [perform_exhausted serial tables oldNamed oldAbove exhausted]
      · rintro state access rfl
        rw [perform_exhausted serial tables oldNamed oldAbove exhausted,
          perform_exhausted serial tables newNamed newAbove
            (by rwa [copied]), copied]

/--
A duplication makes two names of one file for later accesses if the target
is the source, if both are outputs of the console, or if both are above the
console and nothing is left to read.
-/
def Call.SharesDescription
    (table : Table)
    (call : Call)
    (old : Int32) : Prop :=
  (∃ target,
    call.target? = some target ∧
      (target = old ∨ (IsOutput target ∧ IsOutput old))) ∨
  ((∀ target, call.target? = some target → 3 ≤ target) ∧
    3 ≤ old ∧
    ∀ slot, slot? old = some slot → (table slot).Exhausted)

/--
After a successful duplication of a descriptor in use, the source and the
duplicate behave as one open file description for every sequence of reads,
writes and `fstat` calls exactly under `SharesDescription`.
-/
theorem duplicate_behaves_as_one_iff
    (serial : SerialPort Console)
    (tables : EmbeddedTables)
    (kernel : Kernel Console)
    (call : Call)
    (old new : Int32)
    (copies : call.source? = some old)
    (inUse : InUse kernel.fdTable old)
    (returned :
      (perform serial tables kernel call).1.ret = new.toInt64)
    (succeeded : 0 ≤ new) :
    BehaveAsOne serial tables (perform serial tables kernel call).2
        old new ↔
      call.SharesDescription kernel.fdTable old := by
  obtain ⟨oldSlot, newSlot, oldNamed, newNamed, after, targeted⟩ :=
    duplicated_entries serial tables copies returned succeeded
  have oldEntry :
      (kernel.set newSlot (kernel.fdTable oldSlot)).fdTable oldSlot =
        kernel.fdTable oldSlot := by
    by_cases same : oldSlot = newSlot
    · simp [same]
    · simp [Function.update_of_ne same]
  have newEntry :
      (kernel.set newSlot (kernel.fdTable oldSlot)).fdTable newSlot =
        kernel.fdTable oldSlot := by
    simp
  have used : (kernel.fdTable oldSlot).used = true := by
    obtain ⟨slot, named, used⟩ := inUse
    cases named.symm.trans oldNamed
    exact used
  rw [after, behaveAsOne_iff serial tables oldNamed newNamed
    (newEntry.trans oldEntry.symm) (by rwa [oldEntry]), oldEntry]
  unfold Call.SharesDescription
  rcases targeted with target | ⟨noTarget, free⟩
  · simp [target, oldNamed, or_assoc]
  · have newAbove : 3 ≤ new :=
      (three_le_iff_of_slot? newNamed).mpr (mem_freeSlots.mp free).1
    have different : new ≠ old := by
      rintro rfl
      cases newNamed.symm.trans oldNamed
      exact not_mem_freeSlots used free
    obtain ⟨-, notOutput, -⟩ := not_console_of_three_le newAbove
    simp only [noTarget, oldNamed, newAbove, different, notOutput,
      false_and, false_or, true_and, reduceCtorEq, exists_false,
      IsEmpty.forall_iff, forall_const, Option.some.injEq, forall_eq']

/-- Standard error duplicated over standard output is one file with it. -/
theorem duplicate_behaves_as_one_iff_outputs :
    BehaveAsOne .silent ⟨[], []⟩
      (perform .silent ⟨[], []⟩ (.initial ()) (.dup2 2 1)).2 2 1 :=
  (duplicate_behaves_as_one_iff .silent ⟨[], []⟩ (.initial ())
    (.dup2 2 1) 2 1 rfl (by decide +kernel) (by decide +kernel)
    (by decide)).mpr
    (.inl ⟨1, rfl, .inr ⟨.inl rfl, .inr rfl⟩⟩)

/-- Bytes of a file read through a descriptor come again from a copy. -/
theorem duplicates_do_not_share_position :
    ¬∀ (history : List Call) (call : Call) (old new : Int32),
      let kernel :=
        (descriptorCalls .silent oneFile).run (.initial ()) history
      call.source? = some old →
      InUse kernel.fdTable old →
      (perform .silent oneFile kernel call).1.ret = new.toInt64 →
      0 ≤ new →
      BehaveAsOne .silent oneFile (perform .silent oneFile kernel call).2
        old new := by
  intro together
  have replies :=
    (together [.openFile (some [47, 97]) 0 0] (.dup 3) 3 4 rfl
      (by decide +kernel) (by decide +kernel) (by decide)
      [(false, .read 3), (true, .read 3)]).1
  revert replies
  decide +kernel

end RubyOnBareMetal.Descriptors
