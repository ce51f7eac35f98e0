import RubyOnBareMetal.Descriptors.Step
import RubyOnBareMetal.Foundation.Cursor

namespace RubyOnBareMetal.Descriptors

open Foundation

/-!
# Reading an embedded file through a descriptor

An open descriptor is a cursor in its file.  Until the descriptor is closed
or overwritten, the reads on it move the cursor and nothing else does, so
the table simulates the reader of the file whatever the other calls are.
-/

variable {Console : Type}

/-! ## The calls that matter to one descriptor -/

/-- Closing a descriptor or copying another one over it. -/
def Call.Retires (call : Call) (fd : Int32) : Prop :=
  call = .close fd ∨ call.target? = some fd

instance (call : Call) (fd : Int32) : Decidable (call.Retires fd) :=
  inferInstanceAs (Decidable (_ ∨ _))

/-- The count of a read on the descriptor. -/
def Call.countOn? (fd : Int32) : Call → Option Nat
  | .read other count => if other = fd then some count.toNat else none
  | _ => none

/-- The bytes returned by the reads on a descriptor, in order. -/
def bytesRead (fd : Int32) : List Call → List Reply → List UInt8
  | call :: calls, reply :: replies =>
      match call.countOn? fd with
      | some _ => reply.buffer ++ bytesRead fd calls replies
      | none => bytesRead fd calls replies
  | _, _ => []

/-! ## A descriptor follows a cursor -/

/-- The entry of a slot says where a cursor stands in its file. -/
structure Follows
    (table : Table)
    (slot : Fin maxFd)
    (cursor : Cursor UInt8) : Prop where
  aboveConsole : 3 ≤ slot.val
  inUse : (table slot).used = true
  data : (table slot).data = some cursor.contents
  size : (table slot).size.toNat = cursor.contents.length
  offset : (table slot).offset.toNat = cursor.position

/-- The offset of a followed entry is not behind its end. -/
theorem Follows.offset_le_size
    {table : Table}
    {slot : Fin maxFd}
    {cursor : Cursor UInt8}
    (follows : Follows table slot cursor) :
    (table slot).offset ≤ (table slot).size := by
  rw [UInt64.le_iff_toNat_le, follows.size, follows.offset]
  exact cursor.bounded

/-- The difference in `sys_read` is what the cursor has ahead. -/
theorem Follows.toNat_size_sub_offset
    {table : Table}
    {slot : Fin maxFd}
    {cursor : Cursor UInt8}
    (follows : Follows table slot cursor) :
    ((table slot).size - (table slot).offset).toNat =
      cursor.remaining.length := by
  rw [UInt64.toNat_sub_of_le _ _ follows.offset_le_size,
    follows.size, follows.offset]
  simp [Cursor.remaining]

/-- A read copies as much as the cursor allows. -/
theorem Follows.toNat_toRead
    {table : Table}
    {slot : Fin maxFd}
    {cursor : Cursor UInt8}
    (follows : Follows table slot cursor)
    (count : UInt64) :
    ((table slot).toRead count).toNat =
      min count.toNat cursor.remaining.length := by
  have ahead := follows.toNat_size_sub_offset
  unfold FdEntry.toRead
  split
  · next less =>
      rw [UInt64.lt_iff_toNat_lt] at less
      omega
  · next notLess =>
      rw [UInt64.lt_iff_toNat_lt] at notLess
      omega

/-- Advancing the offset moves the cursor. -/
theorem Follows.advance
    {table : Table}
    {slot : Fin maxFd}
    {cursor : Cursor UInt8}
    (follows : Follows table slot cursor)
    (count : UInt64) :
    Follows
      (Function.update table slot {
        table slot with
        offset := (table slot).offset + (table slot).toRead count
      })
      slot (cursor.read count.toNat).2 where
  aboveConsole := follows.aboveConsole
  inUse := by
    simpa using follows.inUse
  data := by
    simpa using follows.data
  size := by
    simpa using follows.size
  offset := by
    have moved := follows.toNat_toRead count
    have position := follows.offset
    have bounded := (cursor.read count.toNat).2.bounded
    have sizeExact := follows.size
    have sizeSmall := (table slot).size.toNat_lt
    simp only [Cursor.read] at bounded
    simp only [Function.update_self, UInt64.toNat_add, Cursor.read,
      moved, position]
    omega

/-- At its end an entry gives nothing. -/
theorem FdEntry.toRead_of_end
    {entry : FdEntry}
    (atEnd : entry.size - entry.offset = 0)
    (count : UInt64) :
    entry.toRead count = 0 := by
  unfold FdEntry.toRead
  rw [atEnd]
  split
  · next below =>
      rw [UInt64.lt_iff_toNat_lt] at below
      exact absurd below (Nat.not_lt_zero _)
  · rfl

/-- A read on an embedded file copies what it can and moves the offset. -/
theorem sysRead_of_data
    (serial : SerialPort Console)
    {kernel : Kernel Console}
    {fd : Int32}
    {slot : Fin maxFd}
    {data : List UInt8}
    (named : slot? fd = some slot)
    (aboveConsole : 3 ≤ slot.val)
    (inUse : (kernel.fdTable slot).used = true)
    (embedded : (kernel.fdTable slot).data = some data)
    (count : UInt64) :
    sysRead serial kernel fd count = ({
      ret := ((kernel.fdTable slot).toRead count).toInt64
      buffer :=
        (data.drop (kernel.fdTable slot).offset.toNat).take
          ((kernel.fdTable slot).toRead count).toNat
    }, {
      kernel with
      fdTable :=
        Function.update kernel.fdTable slot {
          kernel.fdTable slot with
          offset :=
            (kernel.fdTable slot).offset +
              (kernel.fdTable slot).toRead count
        }
    }) := by
  have value := toInt_of_slot? named
  have notStdin : fd ≠ 0 := by
    rintro rfl
    rw [Int32.toInt_zero] at value
    omega
  have notConsole : 3 ≤ fd := by
    rw [Int32.le_iff_toInt_le, value]
    change (3 : Int) ≤ slot.val
    omega
  unfold sysRead
  rw [if_neg notStdin, named]
  dsimp only
  split
  · next missing =>
      cases missing.symm.trans embedded
  · next found present =>
      cases present.symm.trans embedded
      rw [if_pos ⟨notConsole, inUse⟩]
      split
      · next atEnd =>
          -- nothing is copied, and the offset stays where it is
          rw [FdEntry.toRead_of_end atEnd, UInt64.add_zero,
            Function.update_eq_self]
          rfl
      · rfl

/-- A read on a followed descriptor is a read of its cursor. -/
theorem sysRead_follows
    (serial : SerialPort Console)
    {kernel : Kernel Console}
    {fd : Int32}
    {slot : Fin maxFd}
    {cursor : Cursor UInt8}
    (named : slot? fd = some slot)
    (follows : Follows kernel.fdTable slot cursor)
    (count : UInt64) :
    let outcome := sysRead serial kernel fd count
    outcome.1.buffer = (cursor.read count.toNat).1 ∧
      outcome.1.ret.toUInt64.toNat = outcome.1.buffer.length ∧
      Follows outcome.2.fdTable slot (cursor.read count.toNat).2 := by
  rw [sysRead_of_data serial named follows.aboveConsole follows.inUse
    follows.data]
  refine ⟨?_, ?_, follows.advance count⟩
  · rw [follows.toNat_toRead, follows.offset]
    simp only [Cursor.read, Cursor.remaining, List.take_eq_take_iff]
    omega
  · rw [UInt64.toUInt64_toInt64, follows.toNat_toRead, follows.offset]
    simp [Cursor.remaining]

/-- A call that leaves the entry alone leaves the cursor where it is. -/
theorem Follows.of_eq
    {before after : Table}
    {slot : Fin maxFd}
    {cursor : Cursor UInt8}
    (follows : Follows before slot cursor)
    (same : after slot = before slot) :
    Follows after slot cursor where
  aboveConsole := follows.aboveConsole
  inUse := by
    rw [same]
    exact follows.inUse
  data := by
    rw [same]
    exact follows.data
  size := by
    rw [same]
    exact follows.size
  offset := by
    rw [same]
    exact follows.offset

/-- Only a read on it or its retirement changes a descriptor in use. -/
theorem perform_keeps_entry
    {serial : SerialPort Console}
    {tables : EmbeddedTables}
    {kernel : Kernel Console}
    {fd : Int32}
    {slot : Fin maxFd}
    {call : Call}
    (named : slot? fd = some slot)
    (inUse : (kernel.fdTable slot).used = true)
    (alive : ¬call.Retires fd)
    (notRead : call.countOn? fd = none) :
    (perform serial tables kernel call).2.fdTable slot =
      kernel.fdTable slot := by
  have step := perform_slot serial tables kernel slot call
  generalize
    (perform serial tables kernel call).2.fdTable slot = entry at step ⊢
  cases step with
  | kept =>
      rfl
  | advanced count reply sameSlot =>
      have sameFd := slot?_injective sameSlot named
      simp [Call.countOn?, sameFd] at notRead
  | closed reply sameSlot =>
      have sameFd := slot?_injective sameSlot named
      exact absurd (.inl (by rw [sameFd])) alive
  | opened opens found free =>
      exact absurd free (not_mem_freeSlots inUse)
  | duplicated source free =>
      exact absurd free (not_mem_freeSlots inUse)
  | replaced copies onto source target =>
      have sameFd := slot?_injective target named
      exact absurd (.inr (by rw [onto, sameFd])) alive
  | reserved reply pipes free =>
      exact absurd free (not_mem_freeSlots inUse)

/-- One call moves the cursor if it is a read on the descriptor. -/
theorem perform_follows
    (serial : SerialPort Console)
    (tables : EmbeddedTables)
    {kernel : Kernel Console}
    {fd : Int32}
    {slot : Fin maxFd}
    {cursor : Cursor UInt8}
    {call : Call}
    (named : slot? fd = some slot)
    (follows : Follows kernel.fdTable slot cursor)
    (alive : ¬call.Retires fd) :
    let outcome := perform serial tables kernel call
    match call.countOn? fd with
    | some count =>
        outcome.1.buffer = (cursor.read count).1 ∧
          Follows outcome.2.fdTable slot (cursor.read count).2
    | none =>
        Follows outcome.2.fdTable slot cursor := by
  cases shape : call.countOn? fd with
  | none =>
      exact follows.of_eq
        (perform_keeps_entry named follows.inUse alive shape)
  | some count =>
      cases call with
      | read other asked =>
          simp only [Call.countOn?, Option.ite_none_right_eq_some,
            Option.some.injEq] at shape
          obtain ⟨rfl, rfl⟩ := shape
          obtain ⟨bytes, -, later⟩ :=
            sysRead_follows serial named follows asked
          exact ⟨bytes, later⟩
      | _ =>
          cases shape

/-- A run reads the file with the counts it asks for on the descriptor. -/
theorem run_follows
    (serial : SerialPort Console)
    (tables : EmbeddedTables)
    {kernel : Kernel Console}
    {fd : Int32}
    {slot : Fin maxFd}
    {cursor : Cursor UInt8}
    {calls : List Call}
    (named : slot? fd = some slot)
    (follows : Follows kernel.fdTable slot cursor)
    (alive : ∀ call ∈ calls, ¬call.Retires fd) :
    let machine := descriptorCalls serial tables
    let counts := calls.filterMap (Call.countOn? fd)
    Follows (machine.run kernel calls).fdTable slot
        (Cursor.reader.run cursor counts) ∧
      bytesRead fd calls (machine.responses kernel calls) =
        (Cursor.reader.responses cursor counts).flatten := by
  induction calls generalizing kernel cursor with
  | nil =>
      exact ⟨follows, rfl⟩
  | cons call rest inductionHypothesis =>
      obtain ⟨aliveNow, aliveLater⟩ := List.forall_mem_cons.mp alive
      have step := perform_follows serial tables named follows aliveNow
      cases shape : call.countOn? fd with
      | none =>
          simp only [shape] at step
          simp only [List.filterMap_cons_none shape, Machine.run_cons,
            Machine.responses_cons, bytesRead, shape]
          exact inductionHypothesis step aliveLater
      | some count =>
          simp only [shape] at step
          obtain ⟨bytes, moved⟩ := step
          obtain ⟨followsLater, bytesLater⟩ :=
            inductionHypothesis moved aliveLater
          simp only [List.filterMap_cons_some shape, Machine.run_cons,
            Machine.responses_cons, bytesRead, shape,
            List.flatten_cons]
          exact ⟨followsLater, congrArg₂ (· ++ ·) bytes bytesLater⟩

/-- The bytes read in a run are those that the cursor passes. -/
theorem run_takes
    (serial : SerialPort Console)
    (tables : EmbeddedTables)
    {kernel : Kernel Console}
    {fd : Int32}
    {slot : Fin maxFd}
    {cursor : Cursor UInt8}
    {calls : List Call}
    (named : slot? fd = some slot)
    (follows : Follows kernel.fdTable slot cursor)
    (alive : ∀ call ∈ calls, ¬call.Retires fd) :
    let machine := descriptorCalls serial tables
    let received := bytesRead fd calls (machine.responses kernel calls)
    received =
        cursor.remaining.take (calls.filterMap (Call.countOn? fd)).sum ∧
      ∃ after,
        Follows (machine.run kernel calls).fdTable slot after ∧
          after.contents = cursor.contents ∧
          after.taken = cursor.taken ++ received := by
  obtain ⟨followsAfter, bytes⟩ :=
    run_follows serial tables named follows alive
  refine ⟨bytes.trans (Cursor.responses_flatten _ _), _, followsAfter,
    Cursor.contents_run _ _, ?_⟩
  rw [Cursor.taken_run, bytes]

/-! ## From `open` on -/

/-- A successful open is a cursor before the first byte of its file. -/
theorem open_follows
    (serial : SerialPort Console)
    (tables : EmbeddedTables)
    {kernel : Kernel Console}
    {opening : Call}
    {path : Option CString}
    {fd : Int32}
    (opens : opening.path? = some path)
    (returned :
      (perform serial tables kernel opening).1.ret = fd.toInt64)
    (succeeded : 0 ≤ fd) :
    ∃ file slot,
      rubyOnBareMetalEmbeddedFileData tables path = some file ∧
        slot? fd = some slot ∧
        Follows (perform serial tables kernel opening).2.fdTable slot
          (Cursor.start file.data) := by
  have isOpen :
      ∃ flags mode,
        perform serial tables kernel opening =
          sysOpen tables kernel path flags mode := by
    cases opening with
    | openFile other flags mode | openat dirfd other flags mode =>
        cases opens
        exact ⟨flags, mode, rfl⟩
    | _ =>
        cases opens
  obtain ⟨flags, mode, opensAs⟩ := isOpen
  rw [opensAs] at returned ⊢
  rcases sysOpen_cases tables kernel path flags mode with
    ⟨error, negative, fails⟩ | ⟨file, slot, found, free, succeeds⟩
  · rw [fails] at returned
    exact absurd returned (error_ne_toInt64 succeeded negative)
  · rw [succeeds] at returned ⊢
    refine ⟨file, slot, found, slot?_of_toInt64_eq returned.symm, ?_⟩
    exact {
      aboveConsole := (mem_freeSlots.mp free).1
      inUse := by simp [FdEntry.opened]
      data := by simp [FdEntry.opened, Cursor.start]
      size := by simpa [FdEntry.opened, Cursor.start] using file.sizeExact
      offset := by simp [FdEntry.opened, Cursor.start]
    }

/--
From a successful open to the close or the overwriting of its descriptor,
whatever calls are made: the descriptor stays in use and is not handed out
again, and its offset stays within its size.  The reads on it deliver the
file in order, as much of it as they ask for together; each of them delivers
what comes next, returns how many bytes that is, and returns nothing for
something only after the whole file.
-/
theorem opened_file_is_read_in_order
    (serial : SerialPort Console)
    (tables : EmbeddedTables)
    (kernel : Kernel Console)
    (opening : Call)
    {path : Option CString}
    (fd : Int32)
    (later : List Call)
    (opens : opening.path? = some path)
    (returned :
      (perform serial tables kernel opening).1.ret = fd.toInt64)
    (succeeded : 0 ≤ fd)
    (alive : ∀ call ∈ later, ¬call.Retires fd) :
    let machine := descriptorCalls serial tables
    let opened := (perform serial tables kernel opening).2
    let after := machine.run opened later
    let received := bytesRead fd later (machine.responses opened later)
    let asked := (later.filterMap (Call.countOn? fd)).sum
    ∃ file slot,
      rubyOnBareMetalEmbeddedFileData tables path = some file ∧
        slot? fd = some slot ∧
        (after.fdTable slot).used = true ∧
        (after.fdTable slot).offset ≤ (after.fdTable slot).size ∧
        received <+: file.data ∧
        received = file.data.take asked ∧
        (∀ count,
          let reply := (perform serial tables after (.read fd count)).1
          reply.buffer =
              (file.data.drop received.length).take count.toNat ∧
            reply.ret.toUInt64.toNat = reply.buffer.length ∧
            (0 < count → reply.ret = 0 → received = file.data)) ∧
        ∀ call : Call,
          fd.toInt64 ∉
            call.issued (perform serial tables after call).1 := by
  intro machine opened after received asked
  obtain ⟨file, slot, found, named, start⟩ :=
    open_follows serial tables opens returned succeeded
  obtain ⟨takes, cursor, follows, sameFile, passed⟩ :=
    run_takes serial tables named start alive
  change received = file.data.take asked at takes
  change cursor.taken = received at passed
  change cursor.contents = file.data at sameFile
  have ahead : cursor.remaining = file.data.drop received.length := by
    rw [← passed, cursor.length_taken, ← sameFile, Cursor.remaining]
  refine ⟨file, slot, found, named, follows.inUse,
    follows.offset_le_size, ?_, takes, ?_, ?_⟩
  · rw [takes]
    exact List.take_prefix _ _
  · intro count reply
    obtain ⟨buffer, length, -⟩ :=
      sysRead_follows serial named follows count
    change reply.buffer = cursor.remaining.take count.toNat at buffer
    change reply.ret.toUInt64.toNat = reply.buffer.length at length
    refine ⟨ahead ▸ buffer, length, ?_⟩
    intro positive nothing
    rw [nothing] at length
    rw [← passed, ← sameFile]
    apply Cursor.taken_eq_contents_of_read_nil
      (UInt64.lt_iff_toNat_lt.mp positive)
    exact buffer.symm.trans (List.eq_nil_of_length_eq_zero length.symm)
  · intro call
    rw [toInt64_of_slot? named]
    exact not_mem_issued serial tables follows.inUse call

/-- A file system of one file, `/a`, with three bytes. -/
def oneFile : EmbeddedTables where
  generatedFiles := []
  muiFiles := [⟨[47, 97], [1, 2, 3], 3, rfl⟩]

/-- Two reads of `/a` around a duplicate, a pipe and a foreign close. -/
theorem opened_file_is_read_in_order_interleaved :
    bytesRead 3 [.read 3 2, .dup 3, .read 4 9, .pipe, .close 4, .read 3 9]
        ((descriptorCalls .silent oneFile).responses
          (perform .silent oneFile (.initial ())
            (.openFile (some [47, 97]) 0 0)).2
          [.read 3 2, .dup 3, .read 4 9, .pipe, .close 4, .read 3 9]) =
      [1, 2, 3] := by
  obtain ⟨file, slot, found, -, -, -, -, takes, -⟩ :=
    opened_file_is_read_in_order .silent oneFile (.initial ())
      (.openFile (some [47, 97]) 0 0) 3
      [.read 3 2, .dup 3, .read 4 9, .pipe, .close 4, .read 3 9]
      rfl (by decide +kernel) (by decide) (by decide)
  cases found
  exact takes

end RubyOnBareMetal.Descriptors
