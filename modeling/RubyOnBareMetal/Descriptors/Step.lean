import RubyOnBareMetal.Descriptors.Table

namespace RubyOnBareMetal.Descriptors

/-!
# What one call does to one slot

Every call changes few slots, and each in one of seven ways.  The two pipe
calls are the ones with a loop that writes: its effect depends only on the
free slots, in order.
-/

variable {Console : Type}

/-! ## Free slots -/

/-- The free slots the allocating loops look at, in order. -/
def freeSlots (table : Table) : List (Fin maxFd) :=
  scannedSlots.filter fun slot => !(table slot).used

/-- A free slot is one above the console that is not in use. -/
theorem mem_freeSlots {table : Table} {slot : Fin maxFd} :
    slot ∈ freeSlots table ↔
      3 ≤ slot.val ∧ (table slot).used = false := by
  simp [freeSlots, mem_scannedSlots]

/-- The loops look at no slot twice. -/
theorem nodup_scannedSlots : scannedSlots.Nodup := by
  decide

/-- Marking a slot changes no other one. -/
theorem markUsed_of_ne
    (table : Table)
    {slot other : Fin maxFd}
    (different : other ≠ slot) :
    markUsed table slot other = table other :=
  Function.update_of_ne different _ _

/-- With a read end the loop looks for one more free slot. -/
theorem pipeScan_second
    (slots : List (Fin maxFd))
    (table : Table)
    (r : Fin maxFd) :
    pipeScan slots table (some r) none =
      match slots.filter fun slot => !(table slot).used with
      | [] => (table, some r, none)
      | w :: _ => (markUsed table w, some r, some w) := by
  induction slots with
  | nil =>
      rfl
  | cons slot rest inductionHypothesis =>
      cases inUse : (table slot).used with
      | true =>
          simp [pipeScan, inUse, inductionHypothesis]
      | false =>
          -- both ends are set, so the loop ends before the next slot
          cases rest <;> simp [pipeScan, inUse]

/-- The loop takes the first two free slots, as far as there are any. -/
theorem pipeScan_first
    (slots : List (Fin maxFd))
    (table : Table)
    (distinct : slots.Nodup) :
    pipeScan slots table none none =
      match slots.filter fun slot => !(table slot).used with
      | [] => (table, none, none)
      | [r] => (markUsed table r, some r, none)
      | r :: w :: _ =>
          (markUsed (markUsed table r) w, some r, some w) := by
  induction slots with
  | nil =>
      rfl
  | cons slot rest inductionHypothesis =>
      obtain ⟨notAgain, distinctRest⟩ := List.nodup_cons.mp distinct
      cases inUse : (table slot).used with
      | true =>
          simp [pipeScan, inUse, inductionHypothesis distinctRest]
      | false =>
          have sameRest :
              (rest.filter fun other =>
                  !(markUsed table slot other).used) =
                rest.filter fun other => !(table other).used := by
            apply List.filter_congr
            intro other member
            rw [markUsed_of_ne table
              (ne_of_mem_of_not_mem member notAgain)]
          simp only [pipeScan, inUse, Option.isSome_none,
            Bool.false_eq_true, and_false, if_false, if_true,
            pipeScan_second, sameRest, Bool.not_false,
            List.filter_cons_of_pos]
          cases rest.filter fun other => !(table other).used <;> rfl

/-- What the pipe calls do, by the free slots there are. -/
theorem sysPipe_eq (kernel : Kernel Console) :
    sysPipe kernel =
      match freeSlots kernel.fdTable with
      | [] => ({ ret := -Errno.EMFILE }, kernel)
      | [r] =>
          ({ ret := -Errno.EMFILE },
            { kernel with fdTable := markUsed kernel.fdTable r })
      | r :: w :: _ =>
          ({ ret := 0, pipefd := some (descriptor r, descriptor w) },
            { kernel with
              fdTable := markUsed (markUsed kernel.fdTable r) w }) := by
  have scan :=
    pipeScan_first scannedSlots kernel.fdTable nodup_scannedSlots
  change pipeScan scannedSlots kernel.fdTable none none =
    match freeSlots kernel.fdTable with
    | [] => _
    | [r] => _
    | r :: w :: _ => _ at scan
  unfold sysPipe
  rw [scan]
  rcases freeSlots kernel.fdTable with _ | ⟨r, _ | ⟨w, others⟩⟩ <;> rfl

/-- A slot found by an allocating loop is a free slot. -/
theorem mem_freeSlots_of_freeSlot?
    {table : Table}
    {slot : Fin maxFd}
    (found : freeSlot? table = some slot) :
    slot ∈ freeSlots table :=
  mem_freeSlots.mpr (freeSlot?_some found)

/-! ## The outcomes of the calls that change the table -/

/-- The entry that `sys_open` makes. -/
def FdEntry.opened (file : EmbeddedFile) : FdEntry where
  used := true
  data := some file.data
  size := file.size
  offset := 0

/-- The kernel after a write to one slot. -/
def Kernel.set
    (kernel : Kernel Console)
    (slot : Fin maxFd)
    (entry : FdEntry) :
    Kernel Console :=
  { kernel with fdTable := Function.update kernel.fdTable slot entry }

@[simp] theorem Kernel.set_fdTable
    (kernel : Kernel Console)
    (slot : Fin maxFd)
    (entry : FdEntry) :
    (kernel.set slot entry).fdTable =
      Function.update kernel.fdTable slot entry :=
  rfl

/-- `sys_open` fails, or fills the first free slot. -/
theorem sysOpen_cases
    (tables : EmbeddedTables)
    (kernel : Kernel Console)
    (path : Option CString)
    (flags mode : Int32) :
    (∃ error : Int64,
      error < 0 ∧
        sysOpen tables kernel path flags mode =
          ({ ret := error }, kernel)) ∨
    ∃ file slot,
      rubyOnBareMetalEmbeddedFileData tables path = some file ∧
        slot ∈ freeSlots kernel.fdTable ∧
        sysOpen tables kernel path flags mode =
          ({ ret := descriptor slot }, kernel.set slot (.opened file)) := by
  unfold sysOpen
  split
  · exact .inl ⟨_, by decide, rfl⟩
  · next file found =>
      split
      · exact .inl ⟨_, by decide, rfl⟩
      · next slot free =>
          exact .inr
            ⟨file, slot, found, mem_freeSlots_of_freeSlot? free, rfl⟩

/-- `sys_close` fails, or empties the slot. -/
theorem sysClose_cases (kernel : Kernel Console) (fd : Int32) :
    (slot? fd = none ∧
      sysClose kernel fd = ({ ret := -Errno.EBADF }, kernel)) ∨
    ∃ slot,
      slot? fd = some slot ∧
        sysClose kernel fd = ({ ret := 0 }, kernel.set slot .closed) := by
  unfold sysClose
  split
  · next outside =>
      exact .inl ⟨outside, rfl⟩
  · next slot named =>
      exact .inr ⟨slot, named, rfl⟩

/-- `sys_dup` fails, or copies the entry to the first free slot. -/
theorem sysDup_cases (kernel : Kernel Console) (oldfd : Int32) :
    (slot? oldfd = none ∧
      sysDup kernel oldfd = ({ ret := -Errno.EBADF }, kernel)) ∨
    ∃ old,
      slot? oldfd = some old ∧
        (sysDup kernel oldfd = ({ ret := -Errno.EMFILE }, kernel) ∨
          ∃ new ∈ freeSlots kernel.fdTable,
            sysDup kernel oldfd =
              ({ ret := descriptor new },
                kernel.set new (kernel.fdTable old))) := by
  unfold sysDup
  split
  · next outside =>
      exact .inl ⟨outside, rfl⟩
  · next old source =>
      refine .inr ⟨old, source, ?_⟩
      split
      · exact .inl rfl
      · next new free =>
          exact .inr ⟨new, mem_freeSlots_of_freeSlot? free, rfl⟩

/-- `sys_dup2` fails, or copies the entry over the target. -/
theorem sysDup2_cases (kernel : Kernel Console) (oldfd newfd : Int32) :
    ((slot? oldfd = none ∨ slot? newfd = none) ∧
      sysDup2 kernel oldfd newfd =
        ({ ret := -Errno.EBADF }, kernel)) ∨
    ∃ old new,
      slot? oldfd = some old ∧
        slot? newfd = some new ∧
        sysDup2 kernel oldfd newfd =
          ({ ret := descriptor new },
            kernel.set new (kernel.fdTable old)) := by
  unfold sysDup2
  cases source : slot? oldfd with
  | none =>
      exact .inl ⟨.inl rfl, rfl⟩
  | some old =>
      cases target : slot? newfd with
      | none =>
          exact .inl ⟨.inr rfl, rfl⟩
      | some new =>
          rw [toInt64_of_slot? target]
          exact .inr ⟨old, new, rfl, rfl, rfl⟩

/-! ## The kinds of calls -/

namespace Call

/-- The path of a call that opens a file. -/
def path? : Call → Option (Option CString)
  | .openFile path _ _ => some path
  | .openat _ path _ _ => some path
  | _ => none

/-- The descriptor that a call copies. -/
def source? : Call → Option Int32
  | .dup oldfd => some oldfd
  | .dup2 oldfd _ => some oldfd
  | .dup3 oldfd _ _ => some oldfd
  | _ => none

/-- The descriptor that a call overwrites with a copy. -/
def target? : Call → Option Int32
  | .dup2 _ newfd => some newfd
  | .dup3 _ newfd _ => some newfd
  | _ => none

/-- A call that makes a pipe. -/
def IsPipe : Call → Prop
  | .pipe => True
  | .pipe2 _ => True
  | _ => False

instance : DecidablePred IsPipe
  | .pipe => inferInstanceAs (Decidable True)
  | .pipe2 _ => inferInstanceAs (Decidable True)
  | .read .. | .write .. | .openFile .. | .openat .. | .close _
  | .fstat _ | .dup _ | .dup2 .. | .dup3 .. =>
      inferInstanceAs (Decidable False)

/-- The descriptors that an allocating call hands out with its reply. -/
def issued (call : Call) (reply : Reply) : List Int64 :=
  match call with
  | .openFile .. | .openat .. | .dup _ =>
      if reply.ret < 0 then [] else [reply.ret]
  | .pipe | .pipe2 _ =>
      match reply.pipefd with
      | some (r, w) => [r, w]
      | none => []
  | .read .. | .write .. | .close _ | .fstat _ | .dup2 .. | .dup3 .. => []

end Call

/-! ## One slot -/

/-- The number of bytes a read of `count` copies. -/
def FdEntry.toRead (entry : FdEntry) (count : UInt64) : UInt64 :=
  if count < entry.size - entry.offset then
    count
  else
    entry.size - entry.offset

/-- How a call with its reply changes the entry of one slot. -/
inductive SlotStep
    (tables : EmbeddedTables)
    (table : Table)
    (slot : Fin maxFd) :
    Call → Reply → FdEntry → Prop where
  | kept (call : Call) (reply : Reply) :
      SlotStep tables table slot call reply (table slot)
  | advanced
      {fd : Int32}
      (count : UInt64)
      (reply : Reply)
      (named : slot? fd = some slot) :
      SlotStep tables table slot (.read fd count) reply {
        table slot with
        offset := (table slot).offset + (table slot).toRead count
      }
  | closed
      {fd : Int32}
      (reply : Reply)
      (named : slot? fd = some slot) :
      SlotStep tables table slot (.close fd) reply .closed
  | opened
      {call : Call}
      {path : Option CString}
      {file : EmbeddedFile}
      {reply : Reply}
      (opens : call.path? = some path)
      (found : rubyOnBareMetalEmbeddedFileData tables path = some file)
      (free : slot ∈ freeSlots table)
      (returned : reply.ret = descriptor slot) :
      SlotStep tables table slot call reply (.opened file)
  | duplicated
      {oldfd : Int32}
      {old : Fin maxFd}
      {reply : Reply}
      (source : slot? oldfd = some old)
      (free : slot ∈ freeSlots table)
      (returned : reply.ret = descriptor slot) :
      SlotStep tables table slot (.dup oldfd) reply (table old)
  | replaced
      {call : Call}
      {oldfd newfd : Int32}
      {old : Fin maxFd}
      {reply : Reply}
      (copies : call.source? = some oldfd)
      (onto : call.target? = some newfd)
      (source : slot? oldfd = some old)
      (target : slot? newfd = some slot)
      (returned : reply.ret = descriptor slot) :
      SlotStep tables table slot call reply (table old)
  | reserved
      {call : Call}
      (reply : Reply)
      (pipes : call.IsPipe)
      (free : slot ∈ freeSlots table) :
      SlotStep tables table slot call reply
        { table slot with used := true }

/-- A write to one slot is a step of every slot if it is one of its own. -/
theorem SlotStep.update
    {tables : EmbeddedTables}
    {table : Table}
    {call : Call}
    {reply : Reply}
    {changed : Fin maxFd}
    {entry : FdEntry}
    (own : SlotStep tables table changed call reply entry)
    (slot : Fin maxFd) :
    SlotStep tables table slot call reply
      (Function.update table changed entry slot) := by
  by_cases same : slot = changed
  · subst same
    rwa [Function.update_self]
  · rw [Function.update_of_ne same]
    exact .kept call reply

section Perform

variable (serial : SerialPort Console) (tables : EmbeddedTables)
variable (kernel : Kernel Console) (slot : Fin maxFd)

theorem sysRead_slot (fd : Int32) (count : UInt64) :
    SlotStep tables kernel.fdTable slot (.read fd count)
      (sysRead serial kernel fd count).1
      ((sysRead serial kernel fd count).2.fdTable slot) := by
  unfold sysRead
  split
  · exact .kept _ _
  · split
    · exact .kept _ _
    · next read named =>
        dsimp only
        split
        · exact .kept _ _
        · split
          · split
            · exact .kept _ _
            · exact SlotStep.update (.advanced count _ named) slot
          · exact .kept _ _

theorem sysOpen_slot
    {call : Call}
    {path : Option CString}
    (opens : call.path? = some path)
    (flags mode : Int32) :
    SlotStep tables kernel.fdTable slot call
      (sysOpen tables kernel path flags mode).1
      ((sysOpen tables kernel path flags mode).2.fdTable slot) := by
  rcases sysOpen_cases tables kernel path flags mode with
    ⟨error, -, fails⟩ | ⟨file, new, found, free, succeeds⟩
  · rw [fails]
    exact .kept _ _
  · rw [succeeds]
    exact SlotStep.update (.opened opens found free rfl) slot

theorem sysClose_slot (fd : Int32) :
    SlotStep tables kernel.fdTable slot (.close fd)
      (sysClose kernel fd).1 ((sysClose kernel fd).2.fdTable slot) := by
  rcases sysClose_cases kernel fd with
    ⟨-, fails⟩ | ⟨closed, named, succeeds⟩
  · rw [fails]
    exact .kept _ _
  · rw [succeeds]
    exact SlotStep.update (.closed _ named) slot

theorem sysDup_slot (oldfd : Int32) :
    SlotStep tables kernel.fdTable slot (.dup oldfd)
      (sysDup kernel oldfd).1 ((sysDup kernel oldfd).2.fdTable slot) := by
  rcases sysDup_cases kernel oldfd with
    ⟨-, fails⟩ | ⟨old, source, fails | ⟨new, free, succeeds⟩⟩
  · rw [fails]
    exact .kept _ _
  · rw [fails]
    exact .kept _ _
  · rw [succeeds]
    exact SlotStep.update (.duplicated source free rfl) slot

theorem sysDup2_slot
    {call : Call}
    {oldfd newfd : Int32}
    (copies : call.source? = some oldfd)
    (onto : call.target? = some newfd) :
    SlotStep tables kernel.fdTable slot call
      (sysDup2 kernel oldfd newfd).1
      ((sysDup2 kernel oldfd newfd).2.fdTable slot) := by
  rcases sysDup2_cases kernel oldfd newfd with
    ⟨-, fails⟩ | ⟨old, new, source, target, succeeds⟩
  · rw [fails]
    exact .kept _ _
  · rw [succeeds]
    exact SlotStep.update
      (.replaced copies onto source target rfl) slot

/-- Marking slots twice leaves every slot as it was or in use. -/
theorem markUsed_markUsed
    (table : Table)
    (r w : Fin maxFd) :
    markUsed (markUsed table r) w slot =
      if slot = r ∨ slot = w then
        { table slot with used := true }
      else
        table slot := by
  by_cases isWrite : slot = w
  · subst isWrite
    by_cases isRead : slot = r
    · subst isRead
      simp [markUsed]
    · simp [markUsed, Function.update_of_ne isRead]
  · by_cases isRead : slot = r
    · subst isRead
      simp [markUsed, Function.update_of_ne isWrite]
    · simp [markUsed_of_ne _ isWrite, markUsed_of_ne _ isRead,
        isWrite, isRead]

theorem sysPipe_slot {call : Call} (pipes : call.IsPipe) :
    SlotStep tables kernel.fdTable slot call
      (sysPipe kernel).1 ((sysPipe kernel).2.fdTable slot) := by
  rw [sysPipe_eq]
  rcases free : freeSlots kernel.fdTable with _ | ⟨r, _ | ⟨w, others⟩⟩
  · exact .kept _ _
  · have isFree : r ∈ freeSlots kernel.fdTable := by simp [free]
    exact SlotStep.update (.reserved _ pipes isFree) slot
  · dsimp only
    rw [markUsed_markUsed]
    split
    · next chosen =>
        refine .reserved _ pipes ?_
        rcases chosen with rfl | rfl <;> simp [free]
    · exact .kept _ _

/-- Every call changes every slot in one of the seven ways. -/
theorem perform_slot (call : Call) :
    SlotStep tables kernel.fdTable slot call
      (perform serial tables kernel call).1
      ((perform serial tables kernel call).2.fdTable slot) := by
  cases call with
  | read fd count =>
      exact sysRead_slot serial tables kernel slot fd count
  | write fd buf =>
      unfold perform sysWrite
      dsimp only
      split <;> exact .kept _ _
  | openFile path flags mode =>
      exact sysOpen_slot tables kernel slot rfl flags mode
  | openat dirfd path flags mode =>
      exact sysOpen_slot tables kernel slot rfl flags mode
  | close fd =>
      exact sysClose_slot tables kernel slot fd
  | fstat fd =>
      have unchanged : (sysFstat kernel fd).2 = kernel := by
        unfold sysFstat
        repeat' split
        all_goals rfl
      change SlotStep tables kernel.fdTable slot (.fstat fd) _
        ((sysFstat kernel fd).2.fdTable slot)
      rw [unchanged]
      exact .kept _ _
  | dup oldfd =>
      exact sysDup_slot tables kernel slot oldfd
  | dup2 oldfd newfd =>
      exact sysDup2_slot tables kernel slot rfl rfl
  | dup3 oldfd newfd flags =>
      exact sysDup2_slot tables kernel slot rfl rfl
  | pipe =>
      exact sysPipe_slot tables kernel slot trivial
  | pipe2 flags =>
      exact sysPipe_slot tables kernel slot trivial

/--
An allocating call hands out descriptors of free slots, which are in use
after it or copies of another slot.
-/
theorem mem_issued
    {call : Call}
    {value : Int64}
    (issues :
      value ∈ call.issued (perform serial tables kernel call).1) :
    ∃ new ∈ freeSlots kernel.fdTable,
      value = descriptor new ∧
        (((perform serial tables kernel call).2.fdTable new).used =
            true ∨
          ∃ oldfd old,
            call = .dup oldfd ∧
              slot? oldfd = some old ∧
              (perform serial tables kernel call).2.fdTable new =
                kernel.fdTable old) := by
  cases call with
  | openFile path flags mode | openat dirfd path flags mode =>
      simp only [perform] at issues ⊢
      rcases sysOpen_cases tables kernel path flags mode with
        ⟨error, negative, fails⟩ | ⟨file, new, -, free, succeeds⟩
      · simp [Call.issued, fails, negative] at issues
      · rw [succeeds] at issues ⊢
        simp only [Call.issued, not_descriptor_lt_zero, if_false,
          List.mem_singleton] at issues
        exact ⟨new, free, issues, .inl (by simp [FdEntry.opened])⟩
  | dup oldfd =>
      have negative : -Errno.EBADF < 0 ∧ -Errno.EMFILE < 0 := by decide
      simp only [perform] at issues ⊢
      rcases sysDup_cases kernel oldfd with
        ⟨-, fails⟩ | ⟨old, source, fails | ⟨new, free, succeeds⟩⟩
      · simp [Call.issued, fails, negative] at issues
      · simp [Call.issued, fails, negative] at issues
      · rw [succeeds] at issues ⊢
        simp only [Call.issued, not_descriptor_lt_zero, if_false,
          List.mem_singleton] at issues
        have copied :
            (kernel.set new (kernel.fdTable old)).fdTable new =
              kernel.fdTable old := by
          simp
        exact
          ⟨new, free, issues, .inr ⟨oldfd, old, rfl, source, copied⟩⟩
  | pipe | pipe2 flags =>
      simp only [Call.issued, perform, sysPipe_eq] at issues ⊢
      rcases free : freeSlots kernel.fdTable with _ | ⟨r, _ | ⟨w, rest⟩⟩
      · simp [free] at issues
      · simp [free] at issues
      · simp only [free, List.mem_cons, List.not_mem_nil,
          or_false] at issues
        rcases issues with isRead | isWrite
        · exact ⟨r, by simp, isRead, .inl (by simp [markUsed_markUsed])⟩
        · exact ⟨w, by simp, isWrite, .inl (by simp [markUsed_markUsed])⟩
  | _ =>
      simp [Call.issued] at issues

end Perform

/-- A slot in use is not a free one. -/
theorem not_mem_freeSlots
    {table : Table}
    {slot : Fin maxFd}
    (inUse : (table slot).used = true) :
    slot ∉ freeSlots table := by
  intro free
  have notInUse := (mem_freeSlots.mp free).2
  simp [inUse] at notInUse

/-- No allocating call hands out a descriptor that is in use. -/
theorem not_mem_issued
    (serial : SerialPort Console)
    (tables : EmbeddedTables)
    {kernel : Kernel Console}
    {slot : Fin maxFd}
    (inUse : (kernel.fdTable slot).used = true)
    (call : Call) :
    descriptor slot ∉
      call.issued (perform serial tables kernel call).1 := by
  intro issues
  obtain ⟨new, free, same, -⟩ := mem_issued serial tables kernel issues
  rw [← descriptor_injective same] at free
  exact not_mem_freeSlots inUse free

end RubyOnBareMetal.Descriptors
